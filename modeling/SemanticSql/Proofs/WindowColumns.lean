import SemanticSql.Proofs.LiftedFilters
import SemanticSql.Proofs.SelectList

/-! Columns that are read behind the finished select, where filters on window functions apply. Its rows can be ordered
by columns of the select only. -/
namespace SemanticSql

open List

namespace Filter

def isText : Filter → Bool
  | literal _ => true
  | _ => false

theorem liftedOneFlat {f : Filter} {split} (ok : liftOne f = .ok split) : ∀ g ∈ split.lifted, g.isGroup = false := by
  unfold liftOne at ok
  split at ok
  · cases ok
    exact forall_mem_nil _
  · split at ok
    · rename_i conditions connective
      split at ok
      · cases ok
      · rename_i none
        split at ok
        · cases ok
        · cases ok
          intro g mem
          obtain ⟨inside,reads⟩ := mem_filter.mp mem
          exact Bool.eq_false_iff.mpr fun group =>
            noNestedMeasure.mp none ⟨g,inside,group,readsWindowMeasure.mp reads⟩
    · rename_i other
      cases ok
      refine forall_mem_singleton.mpr ?_
      cases f with
      | group conditions connective => exact absurd rfl (other conditions connective)
      | condition u predicate value => rfl
      | literal parts => rfl
      | inQuery u negated table column => rfl

variable {filters : List Filter}

theorem liftedFlat {split} (ok : liftWindows filters = .ok split) : ∀ g ∈ split.lifted, g.isGroup = false := by
  induction filters generalizing split with
  | nil =>
    cases ok
    exact forall_mem_nil _
  | cons f rest ih =>
    obtain ⟨first,made,ok⟩ := exceptBind.mp ok
    obtain ⟨others,later,same⟩ := exceptBind.mp ok
    cases same
    exact forall_mem_append.mpr ⟨liftedOneFlat made,ih later⟩

theorem liftedOnWindow {split} (ok : liftWindows filters = .ok split) : ∀ f ∈ split.lifted, f.OnWindow := by
  rcases liftWindowsCases filters with ⟨_,e,failed⟩ | ⟨_,sorted,made,sorts⟩
  · rw [failed] at ok
    cases ok
  · rw [made] at ok
    cases ok
    exact sorts.lifted

/- Only text brings other fields along: any other filter that is taken out compares one field. -/
theorem liftedCompares {split} (ok : liftWindows filters = .ok split) {f u}
    (mem : f ∈ split.lifted) (structured : f.isText = false) (mentions : f.Mentions u) : u.isWindowMeasure := by
  obtain ⟨v,reads,window⟩ := liftedOnWindow ok f mem
  have flat := liftedFlat ok f mem
  cases f with
  | condition w predicate value =>
    cases mentions
    cases reads
    exact window
  | group conditions connective => cases flat
  | literal parts => cases structured
  | inQuery w negated table column =>
    cases mentions
    cases reads
    exact window

end Filter

namespace Layout
variable {l : Layout} {columns : List Column} {before after : Progress}

/- A query over a select that is a table of its own. Its filters read the columns by name. -/
structure Wraps (l : Layout) (q : Query) (lifted : List Filter) (select outer : Select) (order : List SortKey) : Prop where
  whole : ∃ tables, q = .mk (tables ++ [(windowResult, .ofSelect select)]) (.select outer) order l.plan.limit
  reads : ∃ conditions, outer = { items := [.all], source := windowResult, conditions } ∧
    Filter.RenderedAll l.context (fun u sql => sql = u.column) lifted conditions

theorem selectNames {select : Select} (items : select.items = columns.map fun c => .column c.1 c.2) :
    select.names = columnNames columns := by
  rw [Select.names,items,filterMap_map]
  exact congrFun filterMap_eq_map columns

theorem queryWraps {q split} (ok : l.query.Returns before q after) (lifts : Filter.liftWindows l.plan.having = .ok split)
    (some : split.lifted ≠ []) : ∃ columns select outer order, l.Wraps q split.lifted select outer order ∧
      select.names = columnNames columns ∧
      (∃ before after, (l.columns (l.hiddenMetrics split.lifted)).Returns before columns after) ∧
      ∃ before after, (l.sortKeys columns true).Returns before order after := by
  simp only [query,Compile.returnsBind,Compile.returnsLift] at ok
  obtain ⟨_,_,⟨_,rfl⟩,found,_,⟨lifted,rfl⟩,sources,_,_,columns,_,shows,conditions,_,_,_,_,_,
    having,_,_,finish⟩ := ok
  cases lifts.symm.trans lifted
  split at finish
  · rename_i none
    exact absurd (List.isEmpty_iff.mp none) some
  · simp only [Compile.returnsBind,Compile.returnsPure] at finish
    obtain ⟨texts,_,filters,order,_,sorts,rfl,_⟩ := finish
    have reads := Filter.sqlOfRendered (fun u _ sql _ read => (Compile.returnsPure.mp read).1) split.lifted filters
    exact ⟨columns,_,_,order,⟨⟨_,rfl⟩,texts,rfl,reads⟩,selectNames rfl,⟨_,_,shows⟩,_,_,sorts⟩

theorem liftedGrouped {split} (checked : l.plan.check = .ok ()) (lifts : Filter.liftWindows l.plan.having = .ok split)
    (some : split.lifted ≠ []) : l.plan.isUngrouped = false := by
  rw [Plan.check] at checked
  split at checked
  · cases checked
  · split at checked
    · cases checked
    · rename_i allowed
      rw [Bool.eq_false_iff]
      intro ungrouped
      have none : l.plan.having = [] := by simpa [ungrouped] using allowed
      rw [none] at lifts
      cases lifts
      exact some rfl

def Reaches (l : Layout) (lifted : List Filter) (v : FieldUse) : Prop :=
  v ∈ l.plan.dimensions ∨ v ∈ l.plan.metrics ∨ v.isWindowMeasure ∧ ∃ f ∈ lifted, f.Mentions v

theorem columnsReach {lifted} (grouped : l.plan.isUngrouped = false)
    (shows : (l.columns (l.hiddenMetrics lifted)).Returns before columns after) {name : String} :
    name ∈ columnNames columns ↔ ∃ v, l.Reaches lifted v ∧ v.column = name := by
  rw [listedNames (groupedLists grouped shows)]
  have names : name ∈ useNames (l.plan.dimensions ++ (l.plan.metrics ++ l.hiddenMetrics lifted)) ↔
      name ∈ useNames l.plan.dimensions ∨ name ∈ useNames (l.plan.metrics ++ l.hiddenMetrics lifted) := by
    rw [useNames,map_append,mem_append]
    rfl
  rw [names,addedNames (hiddenAdds lifted)]
  simp only [useNames,mem_map,mem_filter,Filter.fieldsMentioned,Reaches]
  constructor
  · rintro (⟨v,mem,same⟩ | ⟨v,mem,same⟩ | ⟨v,⟨mem,window⟩,same⟩)
    · exact ⟨v,.inl mem,same⟩
    · exact ⟨v,.inr (.inl mem),same⟩
    · exact ⟨v,.inr (.inr ⟨window,mem⟩),same⟩
  · rintro ⟨v,mem | mem | ⟨window,mem⟩,same⟩
    · exact .inl ⟨v,mem,same⟩
    · exact .inr (.inl ⟨v,mem,same⟩)
    · exact .inr (.inr ⟨v,⟨mem,window⟩,same⟩)

theorem keysShown {lifted order} (grouped : l.plan.isUngrouped = false)
    (shows : (l.columns (l.hiddenMetrics lifted)).Returns before columns after) {start finish}
    (sorts : (l.sortKeys columns true).Returns start order finish) : ∀ k ∈ order, k.key ∈ columnNames columns := by
  simp only [sortKeys,grouped,Bool.false_eq_true,if_false] at sorts
  split at sorts
  · obtain ⟨rfl,_⟩ := Compile.returnsPure.mp sorts
    intro k mem
    rw [columnsReach grouped shows]
    unfold Plan.defaultOrder at mem
    split at mem
    · split at mem
      · rename_i metric _ asked
        cases mem_singleton.mp mem
        exact ⟨metric,.inr (.inl (by rw [asked]; exact mem_cons_self)),rfl⟩
      · rename_i dimension _ _ asked
        cases mem_singleton.mp mem
        exact ⟨dimension,.inl (by rw [asked]; exact mem_cons_self),rfl⟩
      · cases mem
    · cases mem
  · have found := Compile.returnsEach (R := fun _ k => k.key ∈ columnNames columns) sorts fun o _ before k after made => by
      unfold sortKey at made
      split at made
      · rename_i there
        obtain ⟨rfl,_⟩ := Compile.returnsPure.mp made
        obtain ⟨c,mem,same⟩ := any_eq_true.mp there
        exact mem_map.mpr ⟨c,mem,eq_of_beq same⟩
      · exact absurd made Compile.returnsFail
    intro k mem
    obtain ⟨_,_,shown⟩ := forallMember found.flip mem
    exact shown

/- Behind the finished select, rows are ordered by its columns. -/
theorem wrapperReadsColumns {q split} (ok : l.query.Returns before q after)
    (lifts : Filter.liftWindows l.plan.having = .ok split) (some : split.lifted ≠ []) :
    ∃ select outer order, l.Wraps q split.lifted select outer order ∧ (∀ k ∈ order, k.key ∈ select.names) ∧
      ∀ f ∈ split.lifted, ∀ u, f.Mentions u →
        (u.column ∈ select.names ↔ ∃ v, l.Reaches split.lifted v ∧ v.column = u.column) ∧
        (f.isText = false → u.isWindowMeasure) ∧ (u.isWindowMeasure → u.column ∈ select.names) := by
  have grouped := liftedGrouped (queryChecked ok) lifts some
  obtain ⟨columns,select,outer,order,wraps,names,⟨_,_,shows⟩,_,_,sorts⟩ := queryWraps ok lifts some
  refine ⟨select,outer,order,wraps,?_,fun f mem u mentions => ?_⟩
  · rw [names]
    exact keysShown grouped shows sorts
  · have exactly : u.column ∈ select.names ↔ ∃ v, l.Reaches split.lifted v ∧ v.column = u.column := by
      rw [names]
      exact columnsReach grouped shows
    exact ⟨exactly,fun structured => Filter.liftedCompares lifts mem structured mentions,
      fun window => exactly.mpr ⟨u,.inr (.inr ⟨window,f,mem,mentions⟩),rfl⟩⟩

def costField : Field := .ofAggregate "cost" .sum "$\x7bTABLE\x7d.cost"

def regionOrders : View where
  name := "orders"
  tableName := some "db.orders"
  fields := [areaField,ordersAmount,costField,ordersRank]

def regionProject : Project := .ofDefinitions { views := [regionOrders] }

def regionSession : Session where
  project := regionProject
  context := { dialect := .snowflake, now := ⟨⟨2024,1,1⟩,0,0,0,0⟩ }

def rankUse : FieldUse := ⟨regionOrders,ordersRank,none⟩

def amountUse : FieldUse := ⟨regionOrders,ordersAmount,none⟩

def costUse : FieldUse := ⟨regionOrders,costField,none⟩

def rankText (other : FieldUse) : Filter :=
  .literal [.field "rank" rankUse,.text " < 3 and ",.field other.column other,.text " > 10"]

def amountsOfFirst (other : FieldUse) : Plan where
  metrics := [amountUse]
  dimensions := [⟨regionOrders,areaField,none⟩]
  having := [rankText other]

theorem rankLifts (other : FieldUse) :
    Filter.liftWindows (amountsOfFirst other).having = .ok ⟨[],[rankText other]⟩ := by rfl

theorem rankTextMentions (other : FieldUse) : (rankText other).Mentions other :=
  .literal (mem_cons_of_mem _ (mem_cons_of_mem _ mem_cons_self))

theorem amountReadsColumns :
    ∃ joins before q after, (query ⟨regionSession,amountsOfFirst amountUse,joins⟩).Returns before q after ∧
      Filter.liftWindows (amountsOfFirst amountUse).having = .ok ⟨[],[rankText amountUse]⟩ ∧
      ∃ select outer, q.body = .select outer ∧ outer.source = windowResult ∧
        (windowResult, .ofSelect select) ∈ q.tables ∧ "rank" ∈ select.names ∧ "amount" ∈ select.names := by
  obtain ⟨joins,before,q,after,ok,_⟩ :=
    planRuns regionSession none (amountsOfFirst amountUse) (fun _ => true) (by decide +kernel)
  obtain ⟨select,outer,order,wraps,_,reads⟩ := wrapperReadsColumns ok (rankLifts amountUse) (List.cons_ne_nil _ _)
  obtain ⟨tables,rfl⟩ := wraps.whole
  obtain ⟨conditions,rfl,_⟩ := wraps.reads
  have text := reads (rankText amountUse) List.mem_cons_self
  have table := List.mem_append_right tables (List.mem_singleton_self (windowResult, Query.ofSelect select))
  refine ⟨joins,before,_,after,ok,rankLifts amountUse,select,_,rfl,rfl,table,?_,?_⟩
  · exact (text rankUse (.literal List.mem_cons_self)).2.2 (by decide +kernel)
  · exact (text amountUse (rankTextMentions amountUse)).1.mpr ⟨amountUse,.inr (.inl List.mem_cons_self),rfl⟩

/- A text that restricts the cost beside the rank reads a cost that the finished select does not have. -/
theorem costNotReached :
    ¬ ∀ (d : Definitions) (l : Layout) before q after split select outer order, l.project = .ofDefinitions d →
      l.query.Returns before q after → Filter.liftWindows l.plan.having = .ok split → split.lifted ≠ [] →
      l.Wraps q split.lifted select outer order → ∀ f ∈ split.lifted, ∀ u, f.Mentions u → u.column ∈ select.names := by
  intro all
  obtain ⟨joins,before,q,after,ok,_⟩ :=
    planRuns regionSession none (amountsOfFirst costUse) (fun _ => true) (by decide +kernel)
  have some : [rankText costUse] ≠ [] := List.cons_ne_nil _ _
  have grouped := liftedGrouped (queryChecked ok) (rankLifts costUse) some
  obtain ⟨columns,select,outer,order,wraps,names,⟨_,_,shows⟩,_⟩ := queryWraps ok (rankLifts costUse) some
  have shown := all _ _ _ _ _ _ _ _ _ rfl ok (rankLifts costUse) some wraps _ List.mem_cons_self _ (rankTextMentions costUse)
  rw [names,listedNames (groupedLists grouped shows)] at shown
  have listed : "cost" ∈ ["region","amount","rank"] := shown
  exact absurd listed (by decide)

end Layout
end SemanticSql
