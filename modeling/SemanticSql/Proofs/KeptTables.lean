import SemanticSql.Proofs.SelectList

/-! The tables of kept values. A measure that must not be added up over a dimension compares this dimension, and its
groupings, with columns of a table that is named after the measure and the dimension. -/
namespace SemanticSql

open List Compile KeptValue

namespace KeptValue

structure Of (s : Session) (u : FieldUse) (k : KeptValue) : Prop where
  definition : u.field.nonAdditive = some k.definition
  dimension : s.project.fieldFrom u.view k.definition.name = .ok k.dimension
  groupings : k.definition.groupings.mapM (s.project.fieldFrom u.view) = .ok k.groupings
  table : k.table = "cte_" ++ u.field.name ++ "_" ++ k.dimension.column
  column : k.column = u.view.name ++ "_" ++ k.definition.keep.name ++ "_" ++ k.dimension.column

def compared (k : KeptValue) : List (FieldUse × String) :=
  (k.dimension, k.column) :: k.groupings.map fun g => (g, g.groupingColumn)

end KeptValue

namespace Session
variable {s : Session} {sub : Expand} {u w : FieldUse} {k other : KeptValue} {before after : Progress}

theorem keptOf (ok : s.keptValue u = .ok (some k)) : k.Of s u := by
  rw [keptValue] at ok
  split at ok
  · cases ok
  · rename_i definition declared
    obtain ⟨dimension,found,ok⟩ := exceptBind.mp ok
    split at ok
    · cases ok
    · obtain ⟨groupings,grouped,ok⟩ := exceptBind.mp ok
      cases ok
      exact ⟨declared,found,grouped,rfl,rfl⟩

theorem keptNone (ok : s.keptValue u = .ok none) : u.field.nonAdditive = none := by
  rw [keptValue] at ok
  split at ok
  · assumption
  · obtain ⟨dimension,_,ok⟩ := exceptBind.mp ok
    split at ok
    · cases ok
    · obtain ⟨_,_,ok⟩ := exceptBind.mp ok
      cases ok

theorem keptAgain (view : w.view = u.view) (field : w.field = u.field) (first : other.Of s w) (second : k.Of s u) :
    other.definition = k.definition ∧ other.dimension = k.dimension ∧ other.groupings = k.groupings ∧
      other.column = k.column := by
  have definition : other.definition = k.definition :=
    Option.some.inj (first.definition.symm.trans (field ▸ second.definition))
  have dimension : other.dimension = k.dimension := by
    have found := first.dimension
    rw [view,definition,second.dimension] at found
    exact (Except.ok.inj found).symm
  have groupings : other.groupings = k.groupings := by
    have found := first.groupings
    rw [view,definition,second.groupings] at found
    exact (Except.ok.inj found).symm
  refine ⟨definition,dimension,groupings,?_⟩
  rw [first.column,second.column,view,definition,dimension]

def Compares (sub : Expand) (k : KeptValue) (c : FieldUse × String) (text : String) : Prop :=
  ∃ sql before after, (sub c.1).Returns before sql after ∧ text = sql ++ "=" ++ k.table ++ "." ++ c.2

theorem keptCompares {texts} (ok : (keptConditions sub k).Returns before texts after) :
    List.Forall₂ (Compares sub k) k.compared texts := by
  simp only [keptConditions,returnsBind,returnsPure] at ok
  obtain ⟨sql,_,first,others,_,each,rfl,_⟩ := ok
  refine .cons ⟨sql,_,_,first,rfl⟩ (forall₂_map_left_iff.mpr (returnsEach each ?_))
  intro g _ before text after made
  simp only [returnsBind,returnsPure] at made
  obtain ⟨sql,_,read,rfl,_⟩ := made
  exact ⟨sql,_,_,read,rfl⟩

theorem keptCase {sql} (value : s.keptValue u = .ok (some k)) (ok : (s.measureSql sub u).Returns before sql after) :
    ∃ base texts filters, List.Forall₂ (Compares sub k) k.compared texts ∧
      sql = "CASE WHEN " ++ " AND ".intercalate (texts ++ filters) ++ " THEN " ++ base ++ " END" := by
  simp only [measureSql,measureConditions,value,returnsBind,returnsLift] at ok
  obtain ⟨base,_,_,conditions,_,⟨_,_,⟨same,rfl⟩,made⟩,ok⟩ := ok
  cases same
  simp only [returnsBind,returnsPure] at made
  obtain ⟨texts,_,kept,filters,_,_,rfl,_⟩ := made
  have compares := keptCompares kept
  cases compares with
  | cons first later =>
    obtain ⟨rfl,_⟩ := returnsPure.mp ok
    exact ⟨base,_,filters,.cons first later,rfl⟩

end Session

structure KeptFor (s : Session) (leaves : List FieldUse) (known : List KeptValue) : Prop where
  distinct : (known.map table).Nodup
  source : ∀ k ∈ known, ∃ u ∈ leaves, s.keptValue u = .ok (some k)
  covers : ∀ u ∈ leaves, ∃ found, s.keptValue u = .ok found ∧ ∀ k, found = some k → k.table ∈ known.map table

section
variable {s : Session} {leaves : List FieldUse} {known : List KeptValue} {u : FieldUse}

theorem keptNothing (s : Session) : KeptFor s [] [] := ⟨nodup_nil,forall_mem_nil _,forall_mem_nil _⟩

theorem keptPlain (kept : KeptFor s leaves known) {found} (value : s.keptValue u = .ok found)
    (there : ∀ k, found = some k → k.table ∈ known.map table) : KeptFor s (leaves ++ [u]) known where
  distinct := kept.distinct
  source k mem := (kept.source k mem).imp fun _ => And.imp_left (mem_append_left _)
  covers := forall_mem_append.mpr ⟨kept.covers,forall_mem_singleton.mpr ⟨found,value,there⟩⟩

theorem keptNew (kept : KeptFor s leaves known) {k} (value : s.keptValue u = .ok (some k))
    (new : k.table ∉ known.map table) : KeptFor s (leaves ++ [u]) (known ++ [k]) where
  distinct := by
    rw [map_append]
    exact kept.distinct.append (nodup_singleton _) (disjoint_singleton.mpr new)
  source := forall_mem_append.mpr
    ⟨fun k mem => (kept.source k mem).imp fun _ => And.imp_left (mem_append_left _),
      forall_mem_singleton.mpr ⟨u,by simp,value⟩⟩
  covers := by
    refine forall_mem_append.mpr ⟨fun v mem => ?_,forall_mem_singleton.mpr ⟨_,value,fun other same => ?_⟩⟩
    · obtain ⟨found,other,there⟩ := kept.covers v mem
      exact ⟨found,other,fun k same => by simp [there k same]⟩
    · cases same
      simp

theorem keptSorted (kept : KeptFor s leaves known) {sorted} (perm : sorted.Perm known) : KeptFor s leaves sorted where
  distinct := (perm.map _).nodup_iff.mpr kept.distinct
  source k mem := kept.source k (perm.mem_iff.mp mem)
  covers u mem := (kept.covers u mem).imp fun _ =>
    And.imp_right fun there k same => (perm.map _).mem_iff.mpr (there k same)

end

namespace Layout
variable {l : Layout} {leaves : List FieldUse} {known : List KeptValue} {before after : Progress}

theorem addKeptFor {measures found} (kept : KeptFor l.toSession leaves known)
    (ok : l.addKept known measures = .ok found) : KeptFor l.toSession (leaves ++ measures) found := by
  induction measures generalizing leaves known with
  | nil =>
    cases ok
    rwa [append_nil]
  | cons u rest ih =>
    rw [addKept,foldlM_cons] at ok
    obtain ⟨next,first,later⟩ := exceptBind.mp ok
    obtain ⟨value,keeps,first⟩ := exceptBind.mp first
    rw [← singleton_append,← append_assoc]
    refine ih ?_ later
    cases value with
    | none =>
      cases first
      exact keptPlain kept keeps fun k same => by cases same
    | some k =>
      cases Except.ok.inj first
      have there : (known.any fun other => other.table == k.table) ↔ k.table ∈ known.map table := by simp
      by_cases old : k.table ∈ known.map table
      · rw [if_pos (there.mpr old)]
        exact keptPlain kept keeps fun other same => Option.some.inj same ▸ old
      · rw [if_neg fun any => old (there.mp any)]
        exact keptNew kept keeps old

theorem leavesKept {measures : List FieldUse} {found} (kept : KeptFor l.toSession leaves known)
    (ok : measures.foldlM (fun known u => do l.addKept known (← l.toSession.measureLeaves u)) known = .ok found) :
    ∃ lists, measures.mapM l.toSession.measureLeaves = .ok lists ∧
      KeptFor l.toSession (leaves ++ lists.flatten) found := by
  induction measures generalizing leaves known with
  | nil =>
    cases ok
    exact ⟨[],rfl,by simpa using kept⟩
  | cons u rest ih =>
    rw [foldlM_cons] at ok
    obtain ⟨next,first,later⟩ := exceptBind.mp ok
    obtain ⟨own,leaf,added⟩ := exceptBind.mp first
    obtain ⟨lists,more,all⟩ := ih (addKeptFor kept added) later
    refine ⟨own :: lists,exceptMapM.mpr (.cons leaf (exceptMapM.mp more)),?_⟩
    rwa [flatten_cons,← append_assoc]

def Leaf (l : Layout) (u : FieldUse) : Prop :=
  ∃ m ∈ l.aggregated, ∃ leaves, l.toSession.measureLeaves m = .ok leaves ∧ u ∈ leaves

theorem keptValuesFor {values} (ok : l.keptValues = .ok values) :
    ∃ leaves, (∀ u, u ∈ leaves ↔ l.Leaf u) ∧ KeptFor l.toSession leaves values := by
  obtain ⟨found,made,sorted⟩ := exceptBind.mp ok
  cases sorted
  obtain ⟨lists,each,kept⟩ := leavesKept (keptNothing l.toSession) made
  refine ⟨lists.flatten,fun u => ?_,keptSorted (by simpa using kept) (mergeSort_perm _ _)⟩
  have all := exceptMapM.mp each
  constructor
  · intro mem
    obtain ⟨leaves,listed,inside⟩ := mem_flatten.mp mem
    obtain ⟨m,known,found⟩ := forallMember all.flip listed
    exact ⟨m,known,leaves,found,inside⟩
  · rintro ⟨m,known,leaves,found,inside⟩
    obtain ⟨same,listed,again⟩ := forallMember all known
    cases again.symm.trans found
    exact mem_flatten.mpr ⟨_,listed,inside⟩

structure Computes (l : Layout) (k : KeptValue) (select : Select) : Prop where
  value : ∃ sql before after, (l.toSession.rowSql k.dimension).Returns before sql after ∧
    .column (k.definition.keep.keyword ++ "(" ++ sql ++ ")") k.column ∈ select.items
  groups : ∀ u ∈ l.keptGroups k, ∃ sql before after, (l.toSession.rowSql u).Returns before sql after ∧
    .column sql u.groupingColumn ∈ select.items

theorem keptTableComputes {k source joins table} (ok : (l.keptTable k source joins).Returns before table after) :
    ∃ select, table = .ofSelect select ∧ l.Computes k select := by
  simp only [keptTable,returnsBind,returnsPure] at ok
  obtain ⟨grouped,_,each,sql,_,read,_,_,_,rfl,_⟩ := ok
  refine ⟨_,rfl,⟨sql,_,_,read,by simp⟩,fun u mem => ?_⟩
  have shown := returnsEach
    (R := fun u c => c.2 = u.groupingColumn ∧ ∃ before after, (l.toSession.rowSql u).Returns before c.1 after)
    each fun u _ before c after made => by
      simp only [returnsBind,returnsPure] at made
      obtain ⟨sql,_,read,rfl,_⟩ := made
      exact ⟨rfl,_,_,read⟩
  obtain ⟨c,listed,name,before,after,read⟩ := forallMember shown mem
  exact ⟨c.1,before,after,read,mem_append_left _ (mem_map.mpr ⟨c,listed,by rw [← name]⟩)⟩

theorem groupingKept {k : KeptValue} {g} (mem : g ∈ k.groupings) : g ∈ l.keptGroups k := by
  obtain ⟨added,whole,_⟩ := addUsesAdds k.groupings
    (l.plan.dimensions.filter fun d => k.definition.followsQuery || d.sameField k.dimension)
  rw [keptGroups,whole]
  exact mem_append_left _ mem

def otherTables (l : Layout) : Except Error (List String) := do
  let windowed ← l.toSession.windowDimensions l.plan.fields
  .ok (l.plan.tables.map Prod.fst ++ windowed.keys.map windowTableName)

theorem sourceTables {sources} (ok : l.sources.Returns before sources after) :
    ∃ others values kept, l.otherTables = .ok others ∧ l.keptValues = .ok values ∧
      sources.tables.map Prod.fst = others ++ values.map table ∧ (∀ t ∈ kept, t ∈ sources.tables) ∧
      List.Forall₂ (fun k t => t.1 = k.table ∧ ∃ select, t.2 = .ofSelect select ∧ l.Computes k select) values kept := by
  simp only [Layout.sources,returnsBind,returnsLift,returnsPure] at ok
  obtain ⟨windowed,_,⟨found,rfl⟩,windows,_,each,source,_,⟨_,rfl⟩,joins,_,_,values,_,⟨keeps,rfl⟩,
    kept,_,made,rfl,_⟩ := ok
  have names : windows.map Prod.fst = windowed.keys.map windowTableName := by
    have named := returnsEach (R := fun e t => t.1 = windowTableName e.1) each fun e _ before t after made => by
      simp only [returnsBind,returnsPure] at made
      obtain ⟨_,_,_,rfl,_⟩ := made
      rfl
    rw [Dict.keys,map_map]
    exact (forallMap named fun e t same => same.symm).symm
  have tables := returnsEach
    (R := fun k t => t.1.1 = k.table ∧ ∃ select, t.1.2 = .ofSelect select ∧ l.Computes k select)
    made fun k _ before t after made => by
      simp only [returnsBind,returnsPure] at made
      obtain ⟨table,_,computed,_,_,_,rfl,_⟩ := made
      exact ⟨rfl,keptTableComputes computed⟩
  have others : l.otherTables = .ok (l.plan.tables.map Prod.fst ++ windowed.keys.map windowTableName) :=
    exceptBind.mpr ⟨windowed,found,rfl⟩
  refine ⟨_,values,kept.map Prod.fst,others,keeps,?_,fun t mem => by simp [mem],?_⟩
  · have same := forallMap tables fun k t related => related.1.symm
    simp only [map_append,map_map,names]
    rw [same]
    rfl
  · exact forall₂_map_right_iff.mpr tables

theorem queryTables {q} (ok : l.query.Returns before q after) :
    ∃ start sources finish rest, l.sources.Returns start sources finish ∧ q.tables = sources.tables ++ rest ∧
      ∀ t ∈ rest, t.1 = windowResult := by
  simp only [query,returnsBind,returnsLift] at ok
  obtain ⟨_,_,_,split,start,_,sources,finish,made,columns,_,_,_,_,_,_,_,_,_,_,_,ok⟩ := ok
  refine ⟨start,sources,finish,?_⟩
  split at ok
  · simp only [returnsBind,returnsPure] at ok
    obtain ⟨_,_,_,rfl,_⟩ := ok
    exact ⟨[],made,(append_nil _).symm,forall_mem_nil _⟩
  · simp only [returnsBind,returnsPure] at ok
    obtain ⟨_,_,_,_,_,_,rfl,_⟩ := ok
    exact ⟨_,made,rfl,forall_mem_singleton.mpr rfl⟩

def OwnsTable (l : Layout) (u : FieldUse) (k : KeptValue) : Prop :=
  ∀ w other, l.Leaf w → l.toSession.keptValue w = .ok (some other) → other.table = k.table →
    w.view = u.view ∧ w.field = u.field

section
variable {q : Query} {u w : FieldUse} {k other : KeptValue} {select : Select}

theorem computesAgain (view : w.view = u.view) (field : w.field = u.field) (first : other.Of l.toSession w)
    (second : k.Of l.toSession u) (computes : l.Computes other select) : l.Computes k select := by
  obtain ⟨definition,dimension,groupings,column⟩ := Session.keptAgain view field first second
  have groups : l.keptGroups other = l.keptGroups k := by simp only [keptGroups,definition,dimension,groupings]
  obtain ⟨value,all⟩ := computes
  rw [definition,dimension,column] at value
  exact ⟨value,groups ▸ all⟩

theorem computedColumns (computes : l.Computes k select) : ∀ c ∈ k.compared, c.2 ∈ select.names := by
  refine forall_mem_cons.mpr ⟨?_,fun c mem => ?_⟩
  · obtain ⟨_,_,_,_,item⟩ := computes.value
    exact mem_filterMap.mpr ⟨_,item,rfl⟩
  · obtain ⟨g,grouping,rfl⟩ := mem_map.mp mem
    obtain ⟨_,_,_,_,item⟩ := computes.groups g (groupingKept grouping)
    exact mem_filterMap.mpr ⟨_,item,rfl⟩

theorem keptNotResult (of : k.Of l.toSession u) : k.table ≠ windowResult := by
  intro same
  have first := congrArg (fun name => name.toList.head?) (of.table.symm.trans same)
  simp [windowResult] at first

theorem tableKept {values} (kept : ∃ leaves, (∀ u, u ∈ leaves ↔ l.Leaf u) ∧ KeptFor l.toSession leaves values)
    (leaf : l.Leaf u) (restricted : u.field.nonAdditive ≠ none) :
    ∃ k, l.toSession.keptValue u = .ok (some k) ∧ (values.map table).count k.table = 1 ∧
      ∃ other ∈ values, other.table = k.table ∧ ∃ w, l.Leaf w ∧ l.toSession.keptValue w = .ok (some other) := by
  obtain ⟨leaves,members,kept⟩ := kept
  obtain ⟨found,keeps,there⟩ := kept.covers u ((members u).mpr leaf)
  cases found with
  | none => exact absurd (Session.keptNone keeps) restricted
  | some k =>
    have listed := there k rfl
    obtain ⟨other,mem,same⟩ := mem_map.mp listed
    obtain ⟨w,inside,value⟩ := kept.source other mem
    exact ⟨k,keeps,count_eq_one_of_mem kept.distinct listed,other,mem,same,w,(members w).mp inside,value⟩

end

theorem measuresReadOwnWindow {q} (ok : l.query.Returns before q after) {u} (leaf : l.Leaf u)
    (restricted : u.field.nonAdditive ≠ none) :
    ∃ k others, l.toSession.keptValue u = .ok (some k) ∧ k.Of l.toSession u ∧ l.otherTables = .ok others ∧
      ((q.tables.map Prod.fst).count k.table = 1 ↔ k.table ∉ others) ∧
      (∃ w other select, l.Leaf w ∧ other.Of l.toSession w ∧ other.table = k.table ∧
        (k.table, .ofSelect select) ∈ q.tables ∧ l.Computes other select) ∧
      (l.OwnsTable u k → ∃ select, (k.table, .ofSelect select) ∈ q.tables ∧ l.Computes k select ∧
        ∀ c ∈ k.compared, c.2 ∈ select.names) ∧
      ∀ sub before sql after, (l.toSession.measureSql sub u).Returns before sql after →
        ∃ base texts filters, List.Forall₂ (Session.Compares sub k) k.compared texts ∧
          sql = "CASE WHEN " ++ " AND ".intercalate (texts ++ filters) ++ " THEN " ++ base ++ " END" := by
  obtain ⟨_,sources,_,rest,made,tables,results⟩ := queryTables ok
  obtain ⟨others,values,kept,beside,keeps,names,listed,each⟩ := sourceTables made
  obtain ⟨k,value,once,other,mem,same,w,again,found⟩ := tableKept (keptValuesFor keeps) leaf restricted
  have of := Session.keptOf value
  obtain ⟨⟨name,table⟩,inside,rfl,select,rfl,computes⟩ := forallMember each mem
  have member : (k.table, .ofSelect select) ∈ q.tables := by
    rw [tables,← same]
    exact List.mem_append_left _ (listed _ inside)
  refine ⟨k,others,value,of,beside,?_,⟨w,other,select,again,Session.keptOf found,same,member,computes⟩,
    fun owns => ?_,fun sub before sql after shown => Session.keptCase value shown⟩
  · have none : (rest.map Prod.fst).count k.table = 0 := List.count_eq_zero.mpr fun mem => by
      obtain ⟨t,inside,named⟩ := List.mem_map.mp mem
      exact keptNotResult of (named.symm.trans (results t inside))
    rw [tables,List.map_append,names,List.count_append,List.count_append,once,none,← List.count_eq_zero]
    omega
  · obtain ⟨view,field⟩ := owns w other again found same
    have own := computesAgain view field (Session.keptOf found) of computes
    exact ⟨select,member,own,computedColumns own⟩

/- Balances of accounts and of loans, each of the last day. Both views name the measure and the day alike. -/
def dayField : Field := .timeGroup "day" "$\x7bTABLE\x7d.day" [.date]

def ownerField : Field := { name := "owner", sql := some "$\x7bTABLE\x7d.owner" }

def accountBalance : Field where
  name := "balance"
  role := .measure
  type := .sum
  sql := some "$\x7bTABLE\x7d.balance"
  nonAdditive := some { name := "day_date", keep := .max, groupings := ["owner"] }

def loanBalance : Field := { accountBalance with nonAdditive := some { name := "day_date", keep := .max } }

def netField : Field := .ofAggregate "net" .number "$\x7bbalance\x7d - $\x7bloans.balance\x7d"

def accountView : View where
  name := "accounts"
  tableName := some "db.accounts"
  fields := [keyField,dayField,ownerField,accountBalance,netField]
  identifiers := [.ofSql "customer_id" .foreign "$\x7bTABLE\x7d.customer_id"]

def loanView : View where
  name := "loans"
  tableName := some "db.loans"
  fields := [keyField,dayField,loanBalance]
  identifiers := [.ofSql "customer_id" .primary "$\x7bTABLE\x7d.customer_id"]

def loanGraph : JoinGraph where
  views := ["accounts","loans"]
  joins := [{
    base := "accounts", target := "loans", relationship := .manyToOne,
    condition := "accounts.customer_id=loans.customer_id" }]

theorem loanViewsGraph : JoinGraph.ofViews [accountView,loanView] = loanGraph :=
  (JoinGraph.ofViewsSorted (by decide)).trans (by decide +kernel)

def bankSession : Session where
  project := { Project.ofDefinitions { views := [accountView,loanView] } with graph := loanGraph }
  context := { dialect := .snowflake, now := ⟨⟨2024,1,1⟩,0,0,0,0⟩ }

theorem bankProject : bankSession.project = .ofDefinitions { views := [accountView,loanView] } := by
  rw [bankSession,← loanViewsGraph]
  rfl

def accountUse : FieldUse := ⟨accountView,accountBalance,none⟩

def loanUse : FieldUse := ⟨loanView,loanBalance,none⟩

def balancePlan : Plan := { metrics := [accountUse] }

def netPlan : Plan := { metrics := [⟨accountView,netField,none⟩] }

/- The balance of loans is compared with the last day of loans, and the table has that of accounts alone. -/
theorem lastLoanDayMissing :
    ¬ ∀ (d : Definitions) (l : Layout) before q after u k, l.project = .ofDefinitions d →
      l.query.Returns before q after → l.Leaf u → l.toSession.keptValue u = .ok (some k) →
      ∃ select, (k.table, .ofSelect select) ∈ q.tables ∧ ∀ c ∈ k.compared, c.2 ∈ select.names := by
  intro all
  obtain ⟨joins,before,q,after,ok,lack⟩ := planRuns bankSession none netPlan
    (fun q => q.tables.all fun t => t.2.lacks "loans_max_day_date") (by decide +kernel)
  have leaves : bankSession.measureLeaves ⟨accountView,netField,none⟩ = .ok [accountUse,loanUse] := by rfl
  have leaf : Leaf ⟨bankSession,netPlan,joins⟩ loanUse := ⟨_,List.mem_cons_self,_,leaves,by simp⟩
  obtain ⟨k,keeps,column⟩ : ∃ k, bankSession.keptValue loanUse = .ok (some k) ∧ k.column = "loans_max_day_date" :=
    ⟨_,rfl,rfl⟩
  obtain ⟨select,listed,shown⟩ := all _ _ _ _ _ loanUse k bankProject ok leaf keeps
  have named := shown (k.dimension, k.column) List.mem_cons_self
  have lacks := List.all_eq_true.mp lack _ listed
  simp [Query.lacks,Query.body,Query.ofSelect,← column,named] at lacks

theorem accountsReadLastDay :
    ∃ joins before q after select, (query ⟨bankSession,balancePlan,joins⟩).Returns before q after ∧
      (q.tables.map Prod.fst).count "cte_balance_day_date" = 1 ∧
      ("cte_balance_day_date", .ofSelect select) ∈ q.tables ∧
      "accounts_max_day_date" ∈ select.names ∧ "accounts_owner" ∈ select.names := by
  obtain ⟨joins,before,q,after,ok,_⟩ := planRuns bankSession none balancePlan (fun _ => true) (by decide +kernel)
  have leaves : bankSession.measureLeaves accountUse = .ok [accountUse] := plainLeaves rfl
  have leaf : Leaf ⟨bankSession,balancePlan,joins⟩ accountUse := ⟨_,List.mem_cons_self,_,leaves,by simp⟩
  obtain ⟨k,others,keeps,_,beside,once,_,own,_⟩ := measuresReadOwnWindow ok leaf (by decide)
  obtain ⟨known,found,table,compared⟩ : ∃ k, bankSession.keptValue accountUse = .ok (some k) ∧
      k.table = "cte_balance_day_date" ∧ k.compared.map Prod.snd = ["accounts_max_day_date","accounts_owner"] :=
    ⟨_,rfl,rfl,rfl⟩
  cases keeps.symm.trans found
  have none : otherTables ⟨bankSession,balancePlan,joins⟩ = .ok [] := by rfl
  cases none.symm.trans beside
  have owns : OwnsTable ⟨bankSession,balancePlan,joins⟩ accountUse k := by
    rintro w other ⟨m,mem,found,again,inside⟩ _ _
    cases List.mem_singleton.mp mem
    cases leaves.symm.trans again
    cases List.mem_singleton.mp inside
    exact ⟨rfl,rfl⟩
  obtain ⟨select,listed,_,shown⟩ := own owns
  have names : ∀ name ∈ k.compared.map Prod.snd, name ∈ select.names := List.forall_mem_map.mpr shown
  rw [compared] at names
  rw [table] at once listed
  exact ⟨joins,before,q,after,select,ok,once.mpr List.not_mem_nil,listed,names _ (by simp),names _ (by simp)⟩

end Layout
end SemanticSql
