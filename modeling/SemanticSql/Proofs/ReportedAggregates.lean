import SemanticSql.Proofs.CompileWarnings
import SemanticSql.Proofs.QueryParts

/-! Aggregates of a grouped query in any dialect. Where a dialect has no symmetric aggregates, a sum, a count or an
average of a view whose rows may be repeated is plain, and then the warnings name it. -/
namespace SemanticSql
open List Compile Session FieldUse

def FieldUse.additive? (u : FieldUse) : Option Additive :=
  match u.field.type with
  | .sum => some .sum
  | .count => some .count
  | .average => some .average
  | _ => none

namespace Session
variable {s : Session} {kind : String → Prop} {final : List String}

section
variable {sub : Expand} (inner : ∀ u, (sub u).Keeps kind)
include inner

theorem expandKeeps {view owner template} : (s.expandWith sub view owner template).Keeps kind := by
  rw [expandWith]
  refine keepsBind keepsLift fun rendered => keepsBind (keepsEach fun part _ => ?_) fun _ => keepsPure
  cases part with
  | text t => exact keepsPure
  | name token =>
    simp only
    split
    · exact keepsPure
    · exact keepsBind keepsLift fun u => inner u

theorem dimensionKeeps {u} : (s.dimensionSql sub u).Keeps kind := by
  have expands {template} : (s.expandWith sub u.view u.id template).Keeps kind := expandKeeps inner
  unfold dimensionSql
  split
  · unfold durationSql
    split
    · exact keepsBind expands fun _ => keepsBind expands fun _ => keepsPure
    · exact keepsFail
    · exact keepsFail
  · exact keepsBind expands fun _ => keepsPure
  · split
    · exact keepsPure
    · split
      · exact keepsBind (keepsEach fun _ _ => keepsBind expands fun _ => keepsPure) fun _ => keepsPure
      · exact keepsBind expands fun _ => keepsPure

theorem measuredKeeps {u} : (s.measuredSql sub u).Keeps kind := by
  unfold measuredSql
  split
  · exact keepsFail
  · exact keepsFail
  · exact expandKeeps inner
  · split
    · exact inner _
    · split
      · exact keepsPure
      · exact keepsFail
  · exact keepsFail

theorem measureKeeps {u} : (s.measureSql sub u).Keeps kind := by
  have conditions : (s.measureConditions sub u).Keeps kind := by
    have filters {kept : List String} : (do
        let filters ← u.field.filters.mapM fun filter => do
          let target ← s.project.fieldFrom u.view filter.field
          let sql ← sub target
          s.context.literalSql target sql filter.value
        return kept ++ filters : Compile (List String)).Keeps kind :=
      keepsBind (keepsEach fun _ _ => keepsBind keepsLift fun target => keepsBind (inner target) fun _ => keepsLift)
        fun _ => keepsPure
    refine keepsBind keepsLift fun kept => ?_
    cases kept with
    | none => exact keepsBind keepsPure fun _ => filters
    | some k =>
      refine keepsBind ?_ fun _ => filters
      exact keepsBind (inner _) fun _ =>
        keepsBind (keepsEach fun _ _ => keepsBind (inner _) fun _ => keepsPure) fun _ => keepsPure
  refine keepsBind (measuredKeeps inner) fun _ => keepsBind conditions fun texts => ?_
  cases texts <;> exact keepsPure

end

theorem rowKeeps (n : Nat) {stack u} : (s.rowSqlFrom n stack u).Keeps kind := by
  induction n generalizing stack u with
  | zero => exact keepsFail
  | succ n ih =>
    rw [rowSqlFrom]
    refine keepsBind keepsKnown fun known => ?_
    cases known with
    | some sql => exact keepsPure
    | none =>
      simp only
      split
      · exact keepsFail
      · split
        · exact keepsBind (measureKeeps fun _ => ih) fun _ => keepsBind keepsRemember fun _ => keepsPure
        · exact keepsBind (dimensionKeeps fun _ => ih) fun _ => keepsBind keepsRemember fun _ => keepsPure

mutual

inductive Reported (s : Session) (repeated : NameSet) (warnings : List String) : FieldUse → String → Prop
  | symmetric {u a value key keySql sql} (additive : u.additive? = some a) (view : u.view.name ∈ repeated)
      (able : s.context.dialect.hasSymmetricAggregates) (primary : u.view.primaryKey? = some key)
      (values : ∃ stack, (s.rowSqlIn stack u).Gives value)
      (keys : ∃ stack, (s.rowSqlIn stack { view := u.view, field := key, grain := none }).Gives keySql)
      (form : Symmetric.render s.context.dialect a.symmetric value keySql = .ok sql) : Reported s repeated warnings u sql
  | plain {u a value} (additive : u.additive? = some a) (view : u.view.name ∉ repeated)
      (values : ∃ stack, (s.rowSqlIn stack u).Gives value) : Reported s repeated warnings u (a.plain value)
  | inflated {u a value} (additive : u.additive? = some a) (view : u.view.name ∈ repeated)
      (unable : s.context.dialect.hasSymmetricAggregates = false) (lenient : s.context.strictAggregates = false)
      (values : ∃ stack, (s.rowSqlIn stack u).Gives value)
      (reported : (QueryError.symmetricInflated s.context.dialect u.id).message ∈ warnings) :
      Reported s repeated warnings u (a.plain value)
  | other {u sql} (notAdditive : u.additive? = none) (notFormula : u.field.type ≠ .number) :
      Reported s repeated warnings u sql
  | formula {u template rendered texts} (number : u.field.type = .number) (sql : u.field.sql = some template)
      (renders : s.render template = .ok rendered)
      (parts : ReportedParts s repeated warnings u (Reference.parts rendered) texts) :
      Reported s repeated warnings u (String.join texts)

inductive ReportedParts (s : Session) (repeated : NameSet) (warnings : List String) :
    FieldUse → List Reference.Part → List String → Prop
  | nil (u) : ReportedParts s repeated warnings u [] []
  | text {u rest texts} (t : String) (next : ReportedParts s repeated warnings u rest texts) :
      ReportedParts s repeated warnings u (.text t :: rest) (t :: texts)
  | table {u rest texts} (next : ReportedParts s repeated warnings u rest texts) :
      ReportedParts s repeated warnings u (.name Reference.table :: rest) (u.view.name :: texts)
  | measure {u rest texts token r sql} (look : s.reference u.view u.id token = .ok r) (isMeasure : r.isMeasure)
      (reported : Reported s repeated warnings r sql) (next : ReportedParts s repeated warnings u rest texts) :
      ReportedParts s repeated warnings u (.name token :: rest)
        ((if r.field.isFormula then "(" ++ sql ++ ")" else sql) :: texts)
  | row {u rest texts token r sql} (look : s.reference u.view u.id token = .ok r) (isRow : r.isMeasure = false)
      (next : ReportedParts s repeated warnings u rest texts) :
      ReportedParts s repeated warnings u (.name token :: rest) (sql :: texts)

end

def Inflated (s : Session) (text : String) : Prop :=
  s.context.dialect.hasSymmetricAggregates = false ∧ s.context.strictAggregates = false ∧
    ∃ u : FieldUse, u.additive?.isSome ∧ text = (QueryError.symmetricInflated s.context.dialect u.id).message

section
variable {repeated : NameSet}

theorem additiveReported {stack a u} (kind : u.additive? = some a) :
    (s.additiveSql repeated (s.rowSqlIn stack) a u).Judged s.Inflated final (s.Reported repeated final u) := by
  have rows {u} : (s.rowSqlIn stack u).Judged s.Inflated final (s.rowSqlIn stack u).Gives := keepsGives (rowKeeps _)
  rw [additiveSql]
  refine judgedBind rows fun value => ?_
  split
  · rename_i inside
    have view := contains_iff_mem.mp inside
    rw [symmetricKey]
    split
    · rename_i able
      split
      · rename_i key primary
        rw [bind_assoc]
        refine judgedBind rows fun keySql => ?_
        rw [pure_bind]
        exact judgedLift fun sql form keys values =>
          .symmetric kind view able primary ⟨stack,values⟩ ⟨stack,keys⟩ form
      · rw [failBind]
        exact judgedFail
    · rename_i unable
      split
      · rw [failBind]
        exact judgedFail
      · rename_i lenient
        have unable : s.context.dialect.hasSymmetricAggregates = false := by simpa using unable
        have lenient : s.context.strictAggregates = false := by simpa using lenient
        rw [bind_assoc]
        have warns : (warn (QueryError.symmetricInflated s.context.dialect u.id).message).Judged s.Inflated final
            fun _ => (QueryError.symmetricInflated s.context.dialect u.id).message ∈ final :=
          ⟨keepsWarn ⟨unable,lenient,u,by simp [kind],rfl⟩,fun _ _ _ ok within => within (warned ok)⟩
        refine judgedBind warns fun _ => ?_
        rw [pure_bind]
        exact judgedPure fun reported values => .inflated kind view unable lenient ⟨stack,values⟩ reported
  · rename_i outside
    exact judgedPure fun values =>
      .plain kind (fun mem => outside (contains_iff_mem.mpr mem)) ⟨stack,values⟩

theorem columnReported {stack u} (column : u.field.type ≠ .number) :
    (s.columnAggregate repeated (s.rowSqlIn stack) u).Judged s.Inflated final (s.Reported repeated final u) := by
  have rows {u} : (s.rowSqlIn stack u).Keeps s.Inflated := rowKeeps _
  have distinct {term} : (s.distinctSql (s.rowSqlIn stack) term u).Keeps s.Inflated := by
    unfold distinctSql
    split
    · exact keepsFail
    · exact keepsBind (expandKeeps fun _ => rows) fun _ => keepsBind rows fun _ => keepsLift
  have other {step : Compile String} (keeps : step.Keeps s.Inflated) (notAdditive : u.additive? = none) :
      step.Judged s.Inflated final (s.Reported repeated final u) :=
    keeps.judged fun _ _ _ _ => .other notAdditive column
  unfold columnAggregate
  split
  · rename_i type
    exact additiveReported (by simp [additive?,type])
  · rename_i type
    exact additiveReported (by simp [additive?,type])
  · rename_i type
    exact additiveReported (by simp [additive?,type])
  · rename_i type
    exact other distinct (by simp [additive?,type])
  · rename_i type
    exact other distinct (by simp [additive?,type])
  · rename_i type
    exact other (keepsBind rows fun _ => keepsPure) (by simp [additive?,type])
  · rename_i type
    exact other (keepsBind rows fun _ => keepsPure) (by simp [additive?,type])
  · rename_i type
    exact other (keepsBind rows fun _ => keepsPure) (by simp [additive?,type])
  · rename_i type
    refine other ?_ (by simp [additive?,type])
    split
    · exact keepsBind rows fun _ => keepsPure
    · exact keepsFail
  · exact judgedFail
  · exact judgedFail

def partText (s : Session) (sub : Expand) (view : View) (owner : String) : Reference.Part → Compile String
  | .text t => pure t
  | .name token =>
    if token = Reference.table then pure view.name
    else do sub (← s.reference view owner token)

theorem partsReported {sub : Expand} {u : FieldUse} {parts : List Reference.Part}
    (rows : ∀ r, r.isMeasure = false → (sub r).Keeps s.Inflated)
    (measures : ∀ r, r.isMeasure → (sub r).Judged s.Inflated final fun sql =>
      ∃ inner, s.Reported repeated final r inner ∧ sql = if r.field.isFormula then "(" ++ inner ++ ")" else inner) :
    (parts.mapM (s.partText sub u.view u.id)).Judged s.Inflated final (s.ReportedParts repeated final u parts) := by
  induction parts with
  | nil => exact judgedPure (.nil u)
  | cons part rest ih =>
    rw [mapM_cons]
    have here : (s.partText sub u.view u.id part).Judged s.Inflated final fun sql => ∀ texts,
        s.ReportedParts repeated final u rest texts → s.ReportedParts repeated final u (part :: rest) (sql :: texts) := by
      cases part with
      | text t => exact judgedPure fun _ next => .text t next
      | name token =>
        rw [partText]
        split
        · rename_i isTable
          exact isTable ▸ judgedPure fun _ next => .table next
        · refine judgedBind (judgedLift fun r look => look) fun r => ?_
          cases isMeasure : r.isMeasure with
          | true =>
            refine judgedMore (measures r isMeasure) ?_
            rintro sql ⟨inner,reported,rfl⟩ look texts next
            exact .measure look isMeasure reported next
          | false => exact (rows r isMeasure).judged fun _ _ _ _ look texts next => .row look isMeasure next
    exact judgedBind here fun sql => judgedBind ih fun texts => judgedPure fun next add => add texts next

theorem aggregateReported (n : Nat) {stack u} :
    (s.aggregateSqlFrom repeated n stack u).Judged s.Inflated final (s.Reported repeated final u) := by
  induction n generalizing stack u with
  | zero => exact judgedFail
  | succ n ih =>
    rw [aggregateSqlFrom]
    split
    · rename_i number
      split
      · exact judgedFail
      · rename_i template hasSql
        split
        · exact judgedFail
        · refine judgedBind (judgedLift fun rendered renders => renders) fun rendered => ?_
          refine judgedBind (partsReported (fun r isRow => ?_) fun r isMeasure => ?_) fun texts =>
            judgedPure fun parts renders => .formula number hasSql renders parts
          · simp only [isRow,Bool.false_eq_true,if_false]
            exact rowKeeps _
          · simp only [isMeasure,if_true]
            exact judgedBind ih fun inner => judgedPure fun reported => ⟨inner,reported,rfl⟩
    · rename_i column
      exact columnReported column

end

theorem joinKeeps {windowed j} : (s.joinSql windowed j).Keeps kind := by
  refine keepsBind keepsLift fun target => keepsBind keepsLift fun table => ?_
  split
  · exact keepsPure
  · exact keepsBind keepsLift fun base => keepsBind (expandKeeps fun _ => rowKeeps _) fun _ => keepsPure

theorem windowKeeps {uses} : (s.windowTable uses).Keeps kind := by
  unfold windowTable
  split
  · exact keepsFail
  · refine keepsBind (keepsEach fun u _ => ?_) fun columns => keepsBind keepsLift fun source => ?_
    · exact keepsBind keepsLift fun views => keepsBind (expandKeeps fun _ => rowKeeps _) fun _ => keepsPure
    · split
      · refine keepsBind keepsLift fun plan => ?_
        split
        · exact keepsBind keepsFail fun _ => keepsPure
        · exact keepsBind (keepsEach fun _ _ => joinKeeps) fun _ => keepsPure
      · exact keepsBind keepsPure fun _ => keepsPure

end Session

namespace Layout
variable {l : Layout} {final : List String}

def Reports (l : Layout) (warnings : List String) (u : FieldUse) (sql : String) : Prop :=
  u.isMeasure → l.toSession.Reported l.joins.symmetric warnings u sql

theorem columnReports (u : FieldUse) : (l.column u).Judged l.toSession.Inflated final (l.Reports final u) := by
  rw [column,groupedSql]
  split
  · exact judgedMore (aggregateReported _) fun _ reported _ => reported
  · rename_i row
    exact (rowKeeps _).judged fun _ _ _ _ measure => absurd measure row

theorem conditionsReported : l.conditionsSql.Judged l.toSession.Inflated final
    (Filter.RenderedAll l.context (l.Reports final) l.plan.conditions) :=
  Filter.sqlOfJudged columnReports _

/- A table that a query computes for itself: window dimensions of a view, or a kept value. -/
inductive OwnTable (l : Layout) (warnings : List String) : String × Query → Prop
  | window {view uses query} (computed : (l.toSession.windowTable uses).Gives query) :
      OwnTable l warnings (windowTableName view, query)
  | kept {values k groups sql select} (known : l.keptValues = .ok values) (mem : k ∈ values)
      (items : select.items = groups ++ [.column (k.definition.keep.keyword ++ "(" ++ sql ++ ")") k.column])
      (conditions : Filter.RenderedAll l.context (l.Reports warnings) l.plan.conditions select.conditions) :
      OwnTable l warnings (k.table, .ofSelect select)

theorem keptComputed {values k source joins} (known : l.keptValues = .ok values) (mem : k ∈ values) :
    (l.keptTable k source joins).Judged l.toSession.Inflated final fun query => l.OwnTable final (k.table, query) := by
  refine judgedThen (keepsEach fun _ _ => keepsBind (rowKeeps _) fun _ => keepsPure) fun grouped => ?_
  refine judgedThen (rowKeeps _) fun sql => ?_
  exact judgedBind conditionsReported fun conditions => judgedPure fun reported => .kept known mem rfl reported

theorem sourcesComputed : l.sources.Judged l.toSession.Inflated final fun sources =>
    ∀ t ∈ sources.tables, t ∈ l.plan.tables ∨ l.OwnTable final t := by
  refine judgedFound fun windowed _ => ?_
  have windows : (windowed.mapM fun (view, uses) => (do
      return (windowTableName view, ← l.toSession.windowTable uses) : Compile (String × Query))).Judged
      l.toSession.Inflated final (List.Forall₂ (fun _ t => l.OwnTable final t) windowed) :=
    judgedEach fun e _ => judgedBind (keepsGives windowKeeps) fun query => judgedPure .window
  refine judgedBind windows fun windowTables => judgedFound fun source _ => ?_
  refine judgedThen (keepsEach fun _ _ => joinKeeps) fun joins => judgedFound fun values known => ?_
  have keptTables : (values.mapM fun k => (do
      let table ← l.keptTable k source joins
      let join ← l.keptJoin k
      return ((k.table, table), join) : Compile ((String × Query) × TableJoin))).Judged l.toSession.Inflated final
      (List.Forall₂ (fun _ (t : (String × Query) × TableJoin) => l.OwnTable final t.1) values) := by
    refine judgedEach fun k mem => judgedBind (keptComputed known mem) fun table => judgedThen ?_ fun join => judgedPure id
    exact keepsBind (keepsEach fun _ _ => keepsBind (rowKeeps _) fun _ => keepsPure) fun _ => keepsPure
  refine judgedBind keptTables fun kept => judgedPure ?_
  intro kepts windows t mem
  have computed {α β : Type} {xs : List α} {ys : List β} {P : β → Prop} (all : List.Forall₂ (fun _ y => P y) xs ys) {y}
      (mem : y ∈ ys) : P y := (forallMember all.flip mem).elim fun _ related => related.2
  rcases mem_append.mp mem with mem | own
  · rcases mem_append.mp mem with read | window
    · exact .inl read
    · exact .inr (computed windows window)
  · obtain ⟨entry,listed,rfl⟩ := mem_map.mp own
    exact .inr (computed kepts listed)

def ReportedAs (l : Layout) (warnings : List String) (u : FieldUse) (c : Column) : Prop :=
  c.2 = u.column ∧ l.Reports warnings u c.1

theorem columnsReported {hidden : List FieldUse} : (l.columns hidden).Judged l.toSession.Inflated final fun columns =>
    l.plan.isUngrouped = false → ∃ dimensions measures, columns = dimensions ++ measures ∧
      List.Forall₂ (fun u c => c.2 = u.column) l.plan.dimensions dimensions ∧
      List.Forall₂ (l.ReportedAs final) (l.plan.metrics ++ hidden) measures := by
  have rows {kind} (u) : (l.rowColumn u).Keeps kind := keepsBind (rowKeeps _) fun _ => keepsPure
  have named : (l.plan.dimensions.mapM l.rowColumn).Judged l.toSession.Inflated final
      (List.Forall₂ (fun u c => c.2 = u.column) l.plan.dimensions) :=
    judgedEach fun u _ => judgedThen (rowKeeps _) fun _ => judgedPure rfl
  refine judgedBind named fun dimensions => ?_
  split
  · rename_i ungrouped
    refine Keeps.judged (keepsFold fun columns u => keepsBind keepsLift fun leaves => keepsFold fun columns leaf => ?_)
      fun _ _ _ _ _ grouped => absurd (ungrouped.symm.trans grouped) (by decide)
    split
    · exact keepsPure
    · exact keepsBind (rows leaf) fun _ => keepsPure
  · have measures : ((l.plan.metrics ++ hidden).mapM fun u => (do return (← l.column u, u.column) : Compile Column)).Judged
        l.toSession.Inflated final (List.Forall₂ (l.ReportedAs final) (l.plan.metrics ++ hidden)) :=
      judgedEach fun u _ => judgedBind (columnReports u) fun sql => judgedPure fun shown => ⟨rfl,shown⟩
    exact judgedBind measures fun measures => judgedPure fun shown names _ => ⟨dimensions,measures,rfl,names,shown⟩

theorem reportedNames {columns : List Column} {hidden : List FieldUse}
    (shown : ∃ dimensions measures, columns = dimensions ++ measures ∧
      List.Forall₂ (fun u c => c.2 = u.column) l.plan.dimensions dimensions ∧
      List.Forall₂ (l.ReportedAs final) (l.plan.metrics ++ hidden) measures) :
    ∀ u ∈ l.plan.dimensions ++ l.plan.metrics, ∃ c ∈ columns, c.2 = u.column := by
  obtain ⟨dimensions,measures,rfl,names,shown⟩ := shown
  intro u mem
  rcases mem_append.mp mem with dimension | metric
  · obtain ⟨c,known,name⟩ := forallMember names dimension
    exact ⟨c,mem_append_left _ known,name⟩
  · obtain ⟨c,known,name,_⟩ := forallMember shown (mem_append_left _ metric)
    exact ⟨c,mem_append_right _ known,name⟩

theorem defaultKeys {d : Dialect} {p : Plan} {key : SortKey} (mem : key ∈ p.defaultOrder d) :
    ∃ u ∈ p.dimensions ++ p.metrics, key.key = u.column := by
  unfold Plan.defaultOrder at mem
  split at mem
  · split at mem
    · rename_i metric rest metrics
      cases mem_singleton.mp mem
      exact ⟨metric,by simp [metrics],rfl⟩
    · rename_i dimension rest _ dimensions
      cases mem_singleton.mp mem
      exact ⟨dimension,by simp [dimensions],rfl⟩
    · contradiction
  · contradiction

/- A key of the order is the name of a column that is shown, or the SQL of a field of the order. -/
def SortedBy (l : Layout) (warnings : List String) (columns : List Column) (key : SortKey) : Prop :=
  (∃ c ∈ columns, key.key = c.2) ∨ ∃ o ∈ l.plan.order, l.Reports warnings o.u key.key

theorem sortedReported {columns : List Column} {wrapped} :
    (l.sortKeys columns wrapped).Judged l.toSession.Inflated final fun order =>
      (l.plan.isUngrouped = false → ∀ u ∈ l.plan.dimensions ++ l.plan.metrics, ∃ c ∈ columns, c.2 = u.column) →
        ∀ key ∈ order, l.SortedBy final columns key := by
  rw [sortKeys]
  split
  · exact judgedPure fun _ => forall_mem_nil _
  · rename_i grouped
    split
    · refine judgedPure fun named key mem => ?_
      obtain ⟨u,shown,same⟩ := defaultKeys mem
      obtain ⟨c,known,name⟩ := named (Bool.eq_false_iff.mpr grouped) u shown
      exact .inl ⟨c,known,same.trans name.symm⟩
    · have each : (l.plan.order.mapM (l.sortKey columns wrapped)).Judged l.toSession.Inflated final
          (List.Forall₂ (fun _ key => l.SortedBy final columns key) l.plan.order) := by
        refine judgedEach fun o mem => ?_
        rw [sortKey]
        split
        · rename_i shown
          obtain ⟨c,known,name⟩ := any_eq_true.mp shown
          exact judgedPure (.inl ⟨c,known,(beq_iff_eq.mp name).symm⟩)
        · split
          · exact judgedFail
          · exact judgedBind (columnReports o.u) fun sql => judgedPure fun shown => .inr ⟨o,mem,shown⟩
      exact judgedMore each fun order all _ key mem => (forallMember all.flip mem).elim fun _ sorted => sorted.2

theorem groupsKeeps {kind} : l.groups.Keeps kind := by
  rw [groups]
  split
  · exact keepsPure
  · refine keepsEach fun u _ => ?_
    split
    · exact keepsPure
    · exact rowKeeps _

structure Reported (l : Layout) (warnings : List String) (q : Query) (split : Filter.Lifted) (columns : List Column)
    (select : Select) (order : List SortKey) : Prop extends Built l q split columns select order where
  measures : l.plan.isUngrouped = false → ∃ dimensions measures, columns = dimensions ++ measures ∧
    List.Forall₂ (fun u c => c.2 = u.column) l.plan.dimensions dimensions ∧
    List.Forall₂ (l.ReportedAs warnings) (l.plan.metrics ++ l.hiddenMetrics split.lifted) measures
  conditions : Filter.RenderedAll l.context (l.Reports warnings) l.plan.conditions select.conditions
  having : Filter.RenderedAll l.context (l.Reports warnings) split.kept select.having
  order : ∀ key ∈ order, l.SortedBy warnings columns key
  tables : ∀ t ∈ q.tables, t ∈ l.plan.tables ∨ l.OwnTable warnings t ∨ t = (windowResult, .ofSelect select)

theorem queryReported : l.query.Judged l.toSession.Inflated final fun q =>
    ∃ split columns select order, l.Reported final q split columns select order := by
  refine judgedFound fun _ _ => judgedFound fun split lifts => judgedBind sourcesComputed fun sources => ?_
  refine judgedBind (judgedGives columnsReported) fun columns => ?_
  refine judgedBind (judgedGives conditionsReported) fun conditions => ?_
  refine judgedThen groupsKeeps fun groups => ?_
  refine judgedBind (judgedGives (Filter.sqlOfJudged columnReports split.kept)) fun having => ?_
  split
  · refine judgedBind (judgedGives sortedReported) fun order => judgedPure ?_
    intro ⟨⟨_,_,sorts⟩,sorted⟩ ⟨⟨_,_,groups⟩,grouped⟩ ⟨⟨_,_,filters⟩,filtered⟩ ⟨shows,shown⟩ computed
    refine ⟨split,columns,_,order,⟨lifts,shows,⟨_,_,filters⟩,⟨_,_,groups⟩,⟨_,_,_,sorts⟩,rfl,.inl ⟨_,rfl⟩⟩,
      shown,filtered,grouped,sorted fun single => reportedNames (shown single),fun t mem => ?_⟩
    exact (computed t mem).imp_right .inl
  · refine judgedThen (Filter.sqlOfKeeps (fun _ => keepsPure) split.lifted) fun outer => ?_
    refine judgedBind (judgedGives sortedReported) fun order => judgedPure ?_
    intro ⟨⟨_,_,sorts⟩,sorted⟩ ⟨⟨_,_,groups⟩,grouped⟩ ⟨⟨_,_,filters⟩,filtered⟩ ⟨shows,shown⟩ computed
    refine ⟨split,columns,_,order,
      ⟨lifts,shows,⟨_,_,filters⟩,⟨_,_,groups⟩,⟨_,_,_,sorts⟩,rfl,.inr ⟨_,_,rfl⟩⟩,
      shown,filtered,grouped,sorted fun single => reportedNames (shown single),fun t mem => ?_⟩
    rcases mem_append.mp mem with own | last
    · exact (computed t own).imp_right .inl
    · exact .inr (.inr (mem_singleton.mp last))

end Layout

def Plan.Reported (s : Session) (topic : Option Topic) (warnings : List String) (p : Plan) (q : Query) : Prop :=
  ∃ joins split columns select order, p.joinPlan s topic = .ok joins ∧
    Layout.Reported { toSession := s, plan := p, joins } warnings q split columns select order

theorem Plan.queryReported {s : Session} {topic : Option Topic} {final : List String} (p : Plan) :
    (p.query s topic).Judged s.Inflated final (p.Reported s topic final) :=
  judgedFound fun joins joined => judgedMore (Layout.queryReported (l := { toSession := s, plan := p, joins }))
    fun _ ⟨split,columns,select,order,reported⟩ => ⟨joins,split,columns,select,order,joined,reported⟩

end SemanticSql
