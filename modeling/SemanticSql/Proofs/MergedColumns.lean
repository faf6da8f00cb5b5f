import SemanticSql.Proofs.FilterText
import SemanticSql.Proofs.MergedRows
import SemanticSql.Proofs.SelectedColumns

/-! Columns that a merged result reads. The select over the parts names columns of their tables without looking at the
queries of the parts. -/
namespace SemanticSql

open List MergePart

theorem FieldUse.sameNames {a b : FieldUse} (same : a.same b) :
    a.column = b.column ∧ a.qualifiedName = b.qualifiedName := by
  simp only [FieldUse.same,sameField,Bool.and_eq_true,beq_iff_eq] at same
  obtain ⟨⟨views,names⟩,grains⟩ := same
  have columns : a.column = b.column := by
    rw [column,column,grains]
    cases b.grain with
    | none => exact names
    | some grain => cases grain <;> simp [Field.aliasAt,names]
  exact ⟨columns,by rw [qualifiedName,qualifiedName,views,columns]⟩

def Query.lacks (q : Query) (name : String) : Bool :=
  match q.body with
  | .select select => !select.items.contains .all && !select.names.contains name
  | _ => true

theorem Query.lacksSelects {q : Query} {name} (lacks : q.lacks name) : ¬ q.Selects name := by
  intro shown
  cases shown with
  | @column _ select _ _ _ _ mem =>
    have named : name ∈ select.names := mem_filterMap.mpr ⟨_,mem,rfl⟩
    simp [Query.lacks,Query.body,named] at lacks
  | all star => simp [Query.lacks,Query.body,star] at lacks

namespace Session
variable {s : Session} {held : FieldUse → TableColumn → Prop}

mutual

/- The text of a field over tables: a column that holds the field, or its formula over such texts. -/
inductive ReadAs (s : Session) (held : FieldUse → TableColumn → Prop) : FieldUse → String → Prop
  | column {u c} (there : held u c) : ReadAs s held u c.sql
  | formula {u sql} (isFormula : u.field.isFormula) (computed : Computed s held u sql) :
      ReadAs s held u ("(" ++ sql ++ ")")

inductive Computed (s : Session) (held : FieldUse → TableColumn → Prop) : FieldUse → String → Prop
  | template {u template text texts} (has : u.field.sql = some template) (rendered : s.render template = .ok text)
      (parts : ReadParts s held u (Reference.parts text) texts) : Computed s held u (String.join texts)

inductive ReadParts (s : Session) (held : FieldUse → TableColumn → Prop) :
    FieldUse → List Reference.Part → List String → Prop
  | nil {u} : ReadParts s held u [] []
  | text {u t rest texts} (others : ReadParts s held u rest texts) : ReadParts s held u (.text t :: rest) (t :: texts)
  | name {u token v sql rest texts} (found : s.reference u.view u.id token = .ok v) (read : ReadAs s held v sql)
      (others : ReadParts s held u rest texts) : ReadParts s held u (.name token :: rest) (sql :: texts)

end

theorem formulaComputed {column : FieldUse → Except Error String}
    (reads : ∀ v sql, column v = .ok sql → s.ReadAs held v sql) {u sql} (ok : s.formulaOver column u = .ok sql) :
    s.Computed held u sql := by
  unfold formulaOver at ok
  cases has : u.field.sql with
  | none =>
    rw [has] at ok
    cases ok
  | some template =>
    simp only [has,exceptBind,exceptMapM] at ok
    obtain ⟨text,rendered,texts,each,same⟩ := ok
    cases same
    refine .template has rendered ?_
    generalize Reference.parts text = parts at each
    induction each with
    | nil => exact .nil
    | @cons part out _ _ first _ ih =>
      cases part with
      | text t =>
        cases first
        exact .text ih
      | name token =>
        obtain ⟨v,found,read⟩ := exceptBind.mp first
        exact .name found (reads v out read) ih

theorem fieldReadAs {columns : FieldUse → Option String} {missing : FieldUse → Error}
    (holds : ∀ u sql, columns u = some sql → ∃ c, held u c ∧ sql = c.sql) {n u sql}
    (ok : s.readFrom columns missing n u = .ok sql) : s.ReadAs held u sql := by
  induction n generalizing u sql with
  | zero => cases ok
  | succ n ih =>
    rw [readFrom] at ok
    cases column : columns u with
    | some text =>
      simp only [column] at ok
      obtain ⟨c,there,rfl⟩ := holds u text column
      cases ok
      exact .column there
    | none =>
      simp only [column] at ok
      by_cases formula : u.field.isFormula
      · simp only [formula,if_true,exceptBind] at ok
        obtain ⟨_,computed,same⟩ := ok
        cases same
        exact .formula formula (formulaComputed (fun _ _ => ih) computed)
      · simp [formula] at ok

theorem readColumn {u text} (read : s.ReadAs held u text) (bare : text.toList.head? ≠ some '(') :
    ∃ c, held u c ∧ text = c.sql := by
  cases read with
  | column there => exact ⟨_,there,rfl⟩
  | formula _ _ => simp at bare

end Session

namespace Scope
variable {s : Scope} {nested : Nested} {r : Request} {q : Query} {metrics dimensions : List FieldUse}
  {passed : List FilterItem} {outer : List Filter} {groups : Dict MergeGroup} {parts : List MergePart} {select : Select}

def Foretold (s : Scope) (r : Request) (part : MergePart) (u : FieldUse) : Prop :=
  ∃ v, s.project.field u.qualifiedName = .ok v ∧ v.column = u.column ∧
    (v.field.isFormula → ¬ s.ShowsRows (partRequest r part []))

structure Backed (s : Scope) (nested : Nested) (r : Request) (q : Query) (part : MergePart) (u : FieldUse)
    (c : TableColumn) : Prop where
  named : c = ⟨part.table,u.column⟩
  selected : ∃ query, (c.table, query) ∈ q.tables ∧
    (∃ items before after, (s.singleQuery nested (partRequest r part items)).Returns before query after) ∧
    (s.Foretold r part u → query.Selects c.name)

theorem partBacked (merged : s.Merged nested r q metrics dimensions passed outer groups parts select) {part}
    (mem : part ∈ parts) {u} (asked : u.qualifiedName ∈ (part.metrics ++ part.dimensions).map FieldUse.qualifiedName) :
    s.Backed nested r q part u ⟨part.table,u.column⟩ := by
  obtain ⟨⟨_,query⟩,listed,applied,rfl,_,before,after,answers⟩ := merged.answered part mem
  refine ⟨rfl,query,listed,⟨_,before,after,answers⟩,?_⟩
  rintro ⟨v,known,same,grouped⟩
  have wanted : u.qualifiedName ∈ (partRequest r part (applied.filterMap id)).metrics ++
      (partRequest r part (applied.filterMap id)).dimensions := by
    rw [map_append,mem_append] at asked
    exact mem_append.mpr (asked.imp_right mem_eraseDups.mpr)
  exact same ▸ singleSelects rfl answers wanted known grouped

def MetricHeld (s : Scope) (nested : Nested) (r : Request) (q : Query) (parts : List MergePart) (u : FieldUse)
    (c : TableColumn) : Prop := ∃ part ∈ parts, (∃ m ∈ part.metrics, m.same u) ∧ s.Backed nested r q part u c

theorem metricReadAs (merged : s.Merged nested r q metrics dimensions passed outer groups parts select) {u sql}
    (ok : s.mergedColumn parts u = .ok sql) : s.ReadAs (s.MetricHeld nested r q parts) u sql := by
  refine Session.fieldReadAs (fun u sql column => ?_) ok
  obtain ⟨part,first,rfl⟩ := Option.map_eq_some_iff.mp column
  have holds : part.metrics.any fun m => m.same u := by simpa using find?_some first
  obtain ⟨m,inside,same⟩ := any_eq_true.mp holds
  have mem := mem_of_find?_eq_some first
  have asked : u.qualifiedName ∈ (part.metrics ++ part.dimensions).map FieldUse.qualifiedName :=
    mem_map.mpr ⟨m,mem_append_left _ inside,(FieldUse.sameNames same).2⟩
  exact ⟨_,⟨part,mem,⟨m,inside,same⟩,partBacked merged mem asked⟩,rfl⟩

theorem dimensionBacked (merged : s.Merged nested r q metrics dimensions passed outer groups parts select) {part}
    (mem : part ∈ parts) {u} (shown : u ∈ part.dimensions) : s.Backed nested r q part u ⟨part.table,u.column⟩ :=
  partBacked merged mem (mem_map_of_mem (mem_append_right _ shown))

inductive ItemRead (s : Scope) (nested : Nested) (r : Request) (q : Query) (parts : List MergePart)
    (metrics dimensions : List FieldUse) : SelectItem → Prop
  | metric {u : FieldUse} {sql} (asked : u ∈ metrics) (plain : u.field.isMergedResult = false)
      (read : s.ReadAs (s.MetricHeld nested r q parts) u sql) :
      ItemRead s nested r q parts metrics dimensions (.column sql u.column)
  | dimension {i : Nat} {u : FieldUse} {columns} (asked : dimensions[i]? = some u)
      (each : List.Forall₂ (fun part c => ∃ v, part.dimensions[i]? = some v ∧ s.Backed nested r q part v c) parts columns) :
      ItemRead s nested r q parts metrics dimensions
        (.column (coalesce s.context.dialect (columns.map TableColumn.sql)) u.column)
  | combined {u : FieldUse} {sql} (asked : u ∈ metrics) (merges : u.field.isMergedResult)
      (computed : s.Computed (s.MetricHeld nested r q parts) u sql) :
      ItemRead s nested r q parts metrics dimensions (.column sql u.column)

inductive JoinRead (s : Scope) (nested : Nested) (r : Request) (q : Query) (first part : MergePart) : TableJoin → Prop
  | cross (keyless : part.dimensions = []) : JoinRead s nested r q first part (.cross part.table)
  | always (keyless : part.dimensions = []) : JoinRead s nested r q first part (.on "FULL OUTER JOIN" part.table "1=1")
  | keys {on : List ColumnEquality} (each : ∀ e ∈ on, (∃ u ∈ first.dimensions, s.Backed nested r q first u e.left) ∧
        ∃ v ∈ part.dimensions, s.Backed nested r q part v e.right) :
      JoinRead s nested r q first part (.on "FULL OUTER JOIN" part.table (" and ".intercalate (on.map ColumnEquality.sql)))

structure ReadsColumns (s : Scope) (nested : Nested) (r : Request) (q : Query) (metrics dimensions : List FieldUse)
    (outer : List Filter) (first : MergePart) (others : List MergePart) (select : Select) : Prop where
  source : select.source = first.table
  items : ∀ item ∈ select.items, s.ItemRead nested r q (first :: others) metrics dimensions item
  joins : List.Forall₂ (s.JoinRead nested r q first) others select.joins
  conditions : Filter.RenderedAll s.context (s.ReadAs (s.MetricHeld nested r q (first :: others))) outer select.conditions

theorem joinRead {first others} (merged : s.Merged nested r q metrics dimensions passed outer groups (first :: others) select)
    {part} (mem : part ∈ others) : s.JoinRead nested r q first part (first.joinWith s.context.dialect part) := by
  by_cases shown : part.dimensions = []
  · unfold joinWith
    rw [if_pos (by simp [shown])]
    split
    · exact .cross shown
    · exact .always shown
  · rw [joinWithKeys _ _ _ shown]
    refine .keys fun e equality => ?_
    obtain ⟨i,there⟩ := mem_iff_getElem?.mp equality
    obtain ⟨u,v,left,right,rfl⟩ := getElem?_zipWith_eq_some.mp there
    have mine := mem_of_getElem? left
    have theirs := mem_of_getElem? right
    exact ⟨⟨u,mine,dimensionBacked merged mem_cons_self mine⟩,
      ⟨v,theirs,dimensionBacked merged (mem_cons_of_mem _ mem) theirs⟩⟩

theorem shownEach {P : MergePart → FieldUse → TableColumn → Prop} {i : Nat}
    (each : ∀ part ∈ parts, ∃ v, part.dimensions[i]? = some v ∧ P part v ⟨part.table,v.column⟩) :
    List.Forall₂ (fun part c => ∃ v, part.dimensions[i]? = some v ∧ P part v c) parts (shownColumns parts i) := by
  induction parts with
  | nil => exact .nil
  | cons part rest ih =>
    obtain ⟨⟨v,there,holds⟩,others⟩ := forall_mem_cons.mp each
    have columns : shownColumns (part :: rest) i = ⟨part.table,v.column⟩ :: shownColumns rest i := by
      simp [shownColumns,there]
    rw [columns]
    exact .cons ⟨v,there,holds⟩ (ih others)

theorem dimensionRead (merged : s.Merged nested r q metrics dimensions passed outer groups parts select) {i : Nat} {u}
    (asked : dimensions[i]? = some u) : s.ItemRead nested r q parts metrics dimensions
      (.column (coalesce s.context.dialect (parts.filterMap fun part => part.dimensionColumns[i]?)) u.column) := by
  rw [← shownText]
  refine .dimension asked (shownEach fun part mem => ?_)
  obtain ⟨e,_,of⟩ := forallMember (partsPlaced merged.placed).flip mem
  have inside : i < part.dimensions.length := of.shows.length_eq ▸ (List.getElem?_eq_some_iff.mp asked).1
  exact ⟨_,getElem?_eq_getElem inside,dimensionBacked merged mem (getElem_mem inside)⟩

theorem itemsRead (merged : s.Merged nested r q metrics dimensions passed outer groups parts select) {items}
    (made : s.mergedItems parts metrics dimensions = .ok items) :
    ∀ item ∈ items, s.ItemRead nested r q parts metrics dimensions item := by
  obtain ⟨own,each,made⟩ := exceptBind.mp made
  obtain ⟨combined,rest,same⟩ := exceptBind.mp made
  cases same
  simp only [forall_mem_append]
  refine ⟨⟨fun item mem => ?_,fun item mem => ?_⟩,fun item mem => ?_⟩
  · obtain ⟨u,asked,read⟩ := forallMember (exceptMapM.mp each).flip mem
    obtain ⟨sql,column,same⟩ := exceptBind.mp read
    cases same
    obtain ⟨asked,plain⟩ := mem_filter.mp (distinctMember asked)
    exact .metric asked (by simpa using plain) (metricReadAs merged column)
  · obtain ⟨⟨u,i⟩,asked,rfl⟩ := mem_map.mp mem
    exact dimensionRead merged (mem_zipIdx_iff_getElem?.mp asked)
  · obtain ⟨u,asked,read⟩ := forallMember (exceptMapM.mp rest).flip mem
    obtain ⟨sql,computed,same⟩ := exceptBind.mp read
    cases same
    obtain ⟨asked,merges⟩ := mem_filter.mp asked
    exact .combined asked merges (Session.formulaComputed (fun _ _ => metricReadAs merged) computed)

theorem metricItem {text name} (read : s.ItemRead nested r q parts metrics dimensions (.column text name))
    (bare : text.toList.head? ≠ some '(') (plain : ∀ u ∈ metrics, u.field.isMergedResult = false)
    (other : ∀ u ∈ dimensions, u.column ≠ name) :
    ∃ u ∈ metrics, u.column = name ∧ ∃ c, s.MetricHeld nested r q parts u c ∧ text = c.sql := by
  cases read with
  | metric asked _ read => exact ⟨_,asked,rfl,Session.readColumn read bare⟩
  | dimension asked _ => exact absurd rfl (other _ (mem_of_getElem? asked))
  | combined asked merges _ => simp [plain _ asked] at merges

theorem mergedColumnsSelected {before after} (ok : (s.mergedResult nested r).Returns before q after) :
    ∃ metrics dimensions passed outer groups first others select,
      s.Merged nested r q metrics dimensions passed outer groups (first :: others) select ∧
      s.ReadsColumns nested r q metrics dimensions outer first others select := by
  obtain ⟨metrics,dimensions,passed,outer,groups,parts,select,run⟩ := merged ok
  obtain ⟨before,after,selects⟩ := run.selects
  cases parts with
  | nil => exact absurd selects Compile.returnsFail
  | cons first others =>
    simp only [mergedSelect,Compile.returnsBind,Compile.returnsLift,Compile.returnsPure] at selects
    obtain ⟨items,_,⟨made,rfl⟩,conditions,_,filters,rfl,_⟩ := selects
    have reads : ∀ u before sql after, Compile.Returns (s.mergedColumn (first :: others) u) before sql after →
        s.ReadAs (s.MetricHeld nested r q (first :: others)) u sql :=
      fun _ _ _ _ read => metricReadAs run (Compile.returnsLift.mp read).1
    refine ⟨metrics,dimensions,passed,outer,groups,first,others,_,run,rfl,itemsRead run made,?_,
      Filter.sqlOfRendered reads outer filters⟩
    exact List.forall₂_map_right_iff.mpr (List.forall₂_same.mpr fun part mem => joinRead run mem)

theorem forcedGroups (forced : r.forceGroupBy) : ¬ s.ShowsRows r := by
  simp [ShowsRows,asked,Plan.isUngrouped,forced]

def costView : View where
  name := "orders"
  tableName := some "db.orders"
  fields := [
    { name := "id", sql := some "$\x7bTABLE\x7d.id", primaryKey := true },
    .ofAggregate "revenue" .sum "$\x7bTABLE\x7d.revenue",
    .ofAggregate "cost" .sum "$\x7bTABLE\x7d.cost",
    .ofAggregate "profit" .number "$\x7brevenue\x7d - $\x7bcost\x7d"]

def costScope : Scope where
  project := .ofDefinitions { views := [costView] }
  context := { dialect := .snowflake, now := ⟨⟨2024,1,1⟩,0,0,0,0⟩ }

def profitByOrder : Request where
  metrics := ["orders.profit"]
  dimensions := ["orders.id"]

def showsColumn (c : TableColumn) (q : Query) : Bool :=
  match q.body with
  | .select select => select.items.contains (.column c.sql c.name)
  | _ => false

theorem shownItem {c : TableColumn} (body : q.body = .select select) (shows : showsColumn c q) :
    .column c.sql c.name ∈ select.items := by
  rw [showsColumn,body] at shows
  exact contains_iff_mem.mp shows

def groupedProfit : Request := { profitByOrder with forceGroupBy := true }

def profitUse : FieldUse := ⟨costView,.ofAggregate "profit" .number "$\x7brevenue\x7d - $\x7bcost\x7d",none⟩

def orderIdUse : FieldUse := ⟨costView,{ name := "id", sql := some "$\x7bTABLE\x7d.id", primaryKey := true },none⟩

theorem groupedProfitSelected : ∃ q after, (costScope.mergedResult refuseNested groupedProfit).Returns {} q after ∧
    ∃ select, q.body = .select select ∧ .column "graph_0.profit" "profit" ∈ select.items ∧
    ∃ query, ("graph_0", query) ∈ q.tables ∧ query.Selects "profit" := by
  have check : (Compile.ran? (costScope.mergedResult refuseNested groupedProfit)).any
    (showsColumn ⟨"graph_0","profit"⟩) := by decide +kernel
  obtain ⟨q,ran,shows⟩ := (Option.any_eq_true ..).mp check
  obtain ⟨after,returns⟩ := Compile.ranReturns ran
  obtain ⟨metrics,dimensions,passed,outer,groups,first,others,select,run,reads⟩ := mergedColumnsSelected returns
  have asked : costScope.fields groupedProfit.metrics = .ok [profitUse] := by rfl
  have shown : costScope.fields groupedProfit.dimensions = .ok [orderIdUse] := by rfl
  cases asked.symm.trans run.asked
  cases shown.symm.trans run.shown
  have listed := shownItem run.body shows
  obtain ⟨u,metric,_,c,⟨part,_,_,backed⟩,text⟩ := metricItem (reads.items _ listed) (by decide) (by decide) (by decide)
  cases List.mem_singleton.mp metric
  obtain ⟨query,table,_,selects⟩ := backed.selected
  have named := backed.named
  subst named
  have same : "graph_0" = part.table := (String.append_left_inj _).mp ((String.append_left_inj _).mp text)
  exact ⟨q,after,returns,select,run.body,listed,query,same ▸ table,selects ⟨profitUse,by rfl,rfl,fun _ => forcedGroups rfl⟩⟩

theorem profitNotSelected :
    ¬ ∀ (s : Scope) nested r before q after select c shown query, (s.mergedResult nested r).Returns before q after →
      q.body = .select select → .column (TableColumn.sql c) shown ∈ select.items → (c.table, query) ∈ q.tables →
      query.Selects c.name := by
  intro all
  have check : (Compile.ran? (costScope.mergedResult refuseNested profitByOrder)).any fun q =>
    showsColumn ⟨"graph_0","profit"⟩ q && q.tables.any fun e => e.1 == "graph_0" && e.2.lacks "profit" := by decide +kernel
  obtain ⟨q,ran,reads⟩ := (Option.any_eq_true ..).mp check
  simp only [Bool.and_eq_true,List.any_eq_true,beq_iff_eq] at reads
  obtain ⟨shows,⟨_,query⟩,listed,rfl,lacks⟩ := reads
  obtain ⟨after,returns⟩ := Compile.ranReturns ran
  obtain ⟨metrics,dimensions,passed,outer,groups,parts,select,merged⟩ := merged returns
  exact Query.lacksSelects lacks (all _ _ _ _ _ _ _ _ _ _ returns merged.body (shownItem merged.body shows) listed)

end Scope
end SemanticSql
