import SemanticSql.Proofs.LiftedFilters
import SemanticSql.Proofs.ListedColumns

/-! The filters and the order around listed queries. A filter reads a name of the result, or the request fails and the
error says which field has no name there. -/
namespace SemanticSql

open List Compile JoinedQuery

namespace Compile
variable {α β : Type}

def Fails (step : Compile α) (before : Progress) (e : Error) (after : Progress) : Prop :=
  step.run before = (.error e, after)

@[simp]
theorem failsBind {step : Compile α} {next : α → Compile β} {before e after} :
    (step >>= next).Fails before e after ↔
      step.Fails before e after ∨ ∃ a middle, step.Returns before a middle ∧ (next a).Fails middle e after := by
  rw [Fails,runBind]
  unfold Fails Returns
  rcases step.run before with ⟨_ | a,middle⟩
  · simp
  · simp

@[simp]
theorem failsPure {a : α} {before e after} : ¬ (pure a : Compile α).Fails before e after := by
  intro fails
  cases fails

@[simp]
theorem failsLift {r : Except Error α} {before e after} :
    Fails (liftM r) before e after ↔ r = .error e ∧ after = before := by
  cases r with
  | ok a =>
    refine ⟨fun fails => absurd fails (failsPure (a := a)),?_⟩
    rintro ⟨fails,_⟩
    cases fails
  | error cause =>
    constructor
    · intro fails
      cases fails
      exact ⟨rfl,rfl⟩
    · rintro ⟨fails,rfl⟩
      cases fails
      rfl

theorem returnsOrFails (step : Compile α) (before : Progress) :
    (∃ a after, step.Returns before a after) ∨ ∃ e after, step.Fails before e after := by
  unfold Returns Fails
  rcases step.run before with ⟨_ | a,after⟩
  · exact .inr ⟨_,after,rfl⟩
  · exact .inl ⟨a,after,rfl⟩

theorem failsMap {step : α → Compile β} {xs : List α} {before e after} (fails : (xs.mapM step).Fails before e after) :
    ∃ x ∈ xs, ∃ before after, (step x).Fails before e after := by
  induction xs generalizing before with
  | nil => exact absurd fails failsPure
  | cons x rest ih =>
    simp only [mapM_cons,failsBind,failsPure,and_false,exists_false,or_false] at fails
    rcases fails with first | ⟨_,middle,_,later⟩
    · exact ⟨x,mem_cons_self,before,after,first⟩
    · obtain ⟨y,mem,fails⟩ := ih later
      exact ⟨y,mem_cons_of_mem x mem,fails⟩

end Compile

namespace Filter
variable {c : Context} {P : FieldUse → String → Prop} {column : FieldUse → Except Error String} {e : Error}

theorem renderedMember {filters texts} (all : RenderedAll c P filters texts) {f} (mem : f ∈ filters) :
    ∃ sql, Rendered c P f sql := by
  induction filters generalizing texts with
  | nil => cases mem
  | cons g rest ih =>
    cases all with
    | cons first others =>
      rcases mem_cons.mp mem with rfl | later
      · exact ⟨_,first⟩
      · exact ih others later

theorem renderedReads {f : Filter} {u} (mentions : f.Mentions u) {sql} (rendered : Rendered c P f sql) :
    ∃ text, P u text := by
  induction mentions generalizing sql with
  | condition =>
    cases rendered with
    | condition shown => exact ⟨_,shown⟩
  | group mem _ ih =>
    cases rendered with
    | group _ all =>
      obtain ⟨_,inner⟩ := renderedMember all mem
      exact ih inner
  | literal mem =>
    cases rendered with
    | literal each =>
      obtain ⟨text,_,shown⟩ := forallMember each mem
      exact ⟨text,shown⟩
  | inQuery =>
    cases rendered with
    | inQuery _ _ _ shown => exact ⟨_,shown⟩

inductive Compares : Filter → FieldUse → Predicate → Option Value → Prop
  | condition {u predicate value} : Compares (.condition u predicate value) u predicate value
  | group {f conditions connective u predicate value} (mem : f ∈ conditions) (inner : Compares f u predicate value) :
      Compares (.group conditions connective) u predicate value

inductive Blames (c : Context) (column : FieldUse → Except Error String) (f : Filter) (e : Error) : Prop
  | field {u} (mentions : f.Mentions u) (missing : column u = .error e)
  | value {u predicate value sql} (compares : f.Compares u predicate value) (shown : column u = .ok sql)
      (refused : c.conditionSql u predicate value sql = .error e)

theorem blamesGroup {conditions : List Filter} {connective} (inner : ∃ f ∈ conditions, f.Blames c column e) :
    (group conditions connective).Blames c column e := by
  obtain ⟨f,mem,blames⟩ := inner
  cases blames with
  | field mentions missing => exact .field (.group mem mentions) missing
  | value compares shown refused => exact .value (.group mem compares) shown refused

mutual

theorem sqlFails (f : Filter) {before after} (fails : (f.sql c fun u => column u).Fails before e after) :
    f.Blames c column e := by
  cases f with
  | condition u predicate value =>
    simp only [Filter.sql,failsBind,failsLift,returnsLift] at fails
    rcases fails with ⟨missing,_⟩ | ⟨sql,_,⟨shown,_⟩,refused,_⟩
    · exact .field .condition missing
    · exact .value .condition shown refused
  | group conditions connective =>
    simp only [Filter.sql,failsBind,failsPure,and_false,exists_false,or_false] at fails
    exact blamesGroup (sqlOfFails conditions fails)
  | literal parts =>
    simp only [Filter.sql,literalSql,failsBind,failsPure,and_false,exists_false,or_false] at fails
    obtain ⟨part,mem,_,_,fails⟩ := failsMap fails
    cases part with
    | text s => exact absurd fails failsPure
    | field token u => exact .field (.literal mem) (failsLift.mp fails).1
  | inQuery u negated table name =>
    simp only [Filter.sql,failsBind,failsPure,failsLift,and_false,exists_false,
      or_false] at fails
    exact .field .inQuery fails.1

theorem sqlOfFails (filters : List Filter) {before after}
    (fails : (sqlOf c (fun u => column u) filters).Fails before e after) : ∃ f ∈ filters, f.Blames c column e := by
  cases filters with
  | nil => exact absurd fails (by simp [sqlOf])
  | cons f rest =>
    simp only [sqlOf,failsBind,failsPure,and_false,exists_false,or_false] at fails
    rcases fails with first | ⟨_,_,_,later⟩
    · exact ⟨f,mem_cons_self,sqlFails f first⟩
    · obtain ⟨g,mem,blames⟩ := sqlOfFails rest later
      exact ⟨g,mem_cons_of_mem f mem,blames⟩

end

end Filter

namespace Scope
variable {s : Scope} {r : Request} {items : List Value} {queries : List JoinedQuery} {before after : Progress} {q : Query}

structure Exposed (s : Scope) (queries : List JoinedQuery) (q : Query) (select : Select) (u : FieldUse) (sql : String) :
    Prop where
  column : .column sql u.column ∈ select.items
  selected : ∃ i query body v, queries[i]? = some query ∧ sql = MergedQuery.tableName i ++ "." ++ u.column ∧
    (MergedQuery.tableName i, body) ∈ q.tables ∧ v ∈ query.shown ∧ v.column = u.column ∧
    ((v.field.isFormula → ¬ s.ShowsRows query.request) → body.Selects u.column)

def Hides (queries : List JoinedQuery) (name : String) : Prop := ∀ query ∈ queries, query.shows name = false

theorem listedColumnFound {u : FieldUse} {sql} :
    listedColumn (columns queries) u = .ok sql ↔ (u.column, sql) ∈ columns queries := by
  rw [Dict.distinctGet (columnsDistinct queries),listedColumn]
  split
  · rename_i found
    simp [found]
  · rename_i missing
    simp [missing]

theorem hidesNone {name : String} : Hides queries name ↔ Dict.get? (columns queries) name = none := by
  rw [columnsGet,Option.map_eq_none_iff,find?_eq_none]
  simp [Hides]

theorem listedColumnMissing {u : FieldUse} {e} : listedColumn (columns queries) u = .error e ↔
    Hides queries u.column ∧ e = .query (.mergedQueriesFilter u.id) := by
  rw [hidesNone,listedColumn]
  split
  · rename_i found
    simp [found]
  · rename_i missing
    simp [missing,eq_comm]

theorem namesShown {filters order select} (answered : s.Answers r items q queries filters order select) {name} :
    name ∈ select.names ↔ ¬ Hides queries name := by
  rw [answeredNames answered,hidesNone,← ne_eq,Option.ne_none_iff_exists',Dict.keys,mem_map]
  simp only [← Dict.distinctGet (columnsDistinct queries)]
  constructor
  · rintro ⟨⟨_,sql⟩,mem,rfl⟩
    exact ⟨sql,mem⟩
  · rintro ⟨sql,mem⟩
    exact ⟨_,mem,rfl⟩

theorem queryRead (ok : s.listedQueries r items = .ok queries) {i query} (there : queries[i]? = some query) :
    ∃ item, MergedQuery.read s r item i = .ok query.toMergedQuery := by
  obtain ⟨_,_,_,tables⟩ := queriesListed ok
  have count : queries.length = items.length := by simpa using congrArg List.length tables
  obtain ⟨inside,_⟩ := List.getElem?_eq_some_iff.mp there
  obtain ⟨other,placed,read⟩ := listedAt ok (getElem?_eq_getElem (count ▸ inside))
  cases placed.symm.trans there
  exact ⟨_,read⟩

theorem columnExposed {filters order select} (answered : s.Answers r items q queries filters order select) {u sql}
    (found : listedColumn (columns queries) u = .ok sql) : s.Exposed queries q select u sql := by
  have listed := listedColumnFound.mp found
  refine ⟨answered.items ▸ mem_map.mpr ⟨_,listed,rfl⟩,?_⟩
  rw [Dict.distinctGet (columnsDistinct queries),columnsGet,Option.map_eq_some_iff] at listed
  obtain ⟨query,first,rfl⟩ := listed
  obtain ⟨shown,i,inside,rfl,_⟩ := find?_eq_some_iff_getElem.mp first
  obtain ⟨v,mem,same⟩ := any_eq_true.mp shown
  replace same : v.column = u.column := by simpa using same
  have placed : queries[i]? = some queries[i] := getElem?_eq_getElem inside
  obtain ⟨body,table,_,_,compiled⟩ := answered.tables _ (getElem_mem inside)
  rw [listedTable answered.read placed] at table ⊢
  obtain ⟨item,read⟩ := queryRead answered.read placed
  obtain ⟨asked,dimensions,plain⟩ := MergedQuery.readAsked read
  refine ⟨i,queries[i],body,v,placed,rfl,table,mem,same,?_⟩
  rw [← same]
  exact compiledSelects compiled plain asked dimensions (mem_of_mem_filter mem)

structure Binds (s : Scope) (r : Request) (items : List Value) (before : Progress) (queries : List JoinedQuery)
    (filters : List Filter) (after : Progress) : Prop where
  granted : s.checkScope = .ok ()
  read : s.listedQueries r items = .ok queries
  binds : ∃ results middle tables, (queries.mapM fun (query : JoinedQuery) => do
      return (query.table, ← s.compile (r.depth + 1) query.request)).Returns before results middle ∧
    ((s.bindAll (s.compile (r.depth + 1)) (r.filter.toList ++ r.having.toList)).run []).Returns middle (filters, tables)
      after

/- A filter around listed queries reads columns of the result, and an error names a field that has none. -/
theorem listedFiltersExposed (listed : r.mergedQueries = some items) :
    (∀ before q after, (s.answer r).Returns before q after →
      ∃ queries filters order select, s.Answers r items q queries filters order select ∧
        Filter.RenderedAll s.context (s.Exposed queries q select) filters select.conditions ∧
        ∀ o ∈ order, o.u.column ∈ select.names ↔ ¬ Hides queries o.u.column) ∧
    ∀ before queries filters bound, s.Binds r items before queries filters bound →
      (∃ f ∈ filters, ∃ u, f.Mentions u ∧ Hides queries u.column) →
      ∃ e after, (s.answer r).Fails before e after ∧ ∃ f ∈ filters,
        (∃ u, f.Mentions u ∧ Hides queries u.column ∧ e = .query (.mergedQueriesFilter u.id)) ∨
        ∃ u predicate value sql, f.Compares u predicate value ∧ (u.column, sql) ∈ JoinedQuery.columns queries ∧
          s.context.conditionSql u predicate value sql = .error e := by
  constructor
  · intro before q after ok
    obtain ⟨queries,filters,order,select,answered⟩ := answers listed ok
    obtain ⟨_,_,filtered⟩ := answered.filtered
    refine ⟨queries,filters,order,select,answered,?_,fun o _ => namesShown answered⟩
    refine Filter.sqlOfRendered (fun u _ sql _ found => ?_) filters filtered
    exact columnExposed answered (Compile.returnsLift.mp found).1
  · rintro before queries filters bound ⟨granted,read,results,middle,tables,compiled,binds⟩
    rintro ⟨f,mem,u,mentions,hidden⟩
    rcases Compile.returnsOrFails (Filter.sqlOf s.context (fun v => listedColumn (JoinedQuery.columns queries) v) filters)
      bound with ⟨texts,_,renders⟩ | ⟨e,after,fails⟩
    · have all := Filter.sqlOfRendered (P := fun v sql => listedColumn (JoinedQuery.columns queries) v = .ok sql)
        (fun v _ sql _ found => (Compile.returnsLift.mp found).1) filters renders
      obtain ⟨_,rendered⟩ := Filter.renderedMember all mem
      obtain ⟨sql,found⟩ := Filter.renderedReads mentions rendered
      cases found.symm.trans (listedColumnMissing.mpr ⟨hidden,rfl⟩)
    · refine ⟨e,after,?_,?_⟩
      · simp only [answer,listed,mergedQueries,Compile.failsBind,Compile.returnsLift]
        exact .inr ⟨(),before,⟨granted,rfl⟩,.inr ⟨queries,before,⟨read,rfl⟩,.inr ⟨results,middle,compiled,
          .inr ⟨(filters, tables),bound,binds,.inl fails⟩⟩⟩⟩
      · obtain ⟨g,inside,blames⟩ := Filter.sqlOfFails filters fails
        refine ⟨g,inside,?_⟩
        cases blames with
        | @field v mentions missing => exact .inl ⟨v,mentions,listedColumnMissing.mp missing⟩
        | value compares shown refused => exact .inr ⟨_,_,_,_,compares,listedColumnFound.mp shown,refused⟩

def daysAbove (metric : String) : Request where
  mergedQueries := some dayItems
  filter := some (.single (.condition metric "greater_than" (some (.int 5))))

def refundsUse : FieldUse := ⟨dispatchView,refundsField,none⟩

theorem refundsHidden {queries} (read : dispatchScope.listedQueries dayQueries dayItems = .ok queries) :
    Hides queries "refunds" := by
  have columns : (dispatchScope.listedQueries dayQueries dayItems).toOption.map
      (fun queries => (Dict.get? (JoinedQuery.columns queries) "refunds").isNone) = some true := by decide +kernel
  rw [read] at columns
  exact hidesNone.mpr (Option.isNone_iff_eq_none.mp (Option.some.inj columns))

theorem revenueExposedRefundsRefused :
    (∃ q after queries filters order select, (dispatchScope.answer (daysAbove "orders.revenue")).Returns {} q after ∧
      dispatchScope.Answers (daysAbove "orders.revenue") dayItems q queries filters order select ∧
      Filter.RenderedAll dispatchScope.context (dispatchScope.Exposed queries q select) filters select.conditions) ∧
    ∃ after, (dispatchScope.answer (daysAbove "orders.refunds")).Fails {} (.query (.mergedQueriesFilter "orders.refunds"))
      after := by
  constructor
  · have answered : (Compile.ran? (dispatchScope.answer (daysAbove "orders.revenue"))).isSome := by decide +kernel
    obtain ⟨q,after,ran⟩ := Compile.ranSome answered
    obtain ⟨queries,filters,order,select,answers,rendered,_⟩ := (listedFiltersExposed rfl).1 _ _ _ ran
    exact ⟨q,after,queries,filters,order,select,ran,answers,rendered⟩
  · have compiled : (Compile.ran? (do
        let queries ← (dispatchScope.listedQueries (daysAbove "orders.refunds") dayItems : Compile _)
        queries.mapM fun (query : JoinedQuery) => do
          return (query.table, ← dispatchScope.compile ((daysAbove "orders.refunds").depth + 1) query.request))).isSome := by
      decide +kernel
    obtain ⟨results,middle,ran⟩ := Compile.ranSome compiled
    obtain ⟨queries,_,lifted,ran⟩ := Compile.returnsBind.mp ran
    obtain ⟨read,rfl⟩ := Compile.returnsLift.mp lifted
    have hidden : Hides queries "refunds" := refundsHidden read
    have binds : dispatchScope.Binds (daysAbove "orders.refunds") dayItems {} queries
        [.condition refundsUse (.compare .greater) (some (.int 5))] middle :=
      ⟨rfl,read,results,middle,[],ran,rfl⟩
    obtain ⟨e,after,fails,f,mem,blames⟩ := (listedFiltersExposed rfl).2 _ _ _ _ binds
      ⟨_,List.mem_singleton_self _,refundsUse,.condition,hidden⟩
    cases List.mem_singleton.mp mem
    rcases blames with ⟨u,mentions,_,rfl⟩ | ⟨u,predicate,value,sql,compares,listed,_⟩
    · cases mentions
      exact ⟨after,fails⟩
    · cases compares
      rw [Dict.distinctGet (JoinedQuery.columnsDistinct queries)] at listed
      cases (hidesNone.mp hidden).symm.trans listed

def daysByRefunds : Request where
  mergedQueries := some dayItems
  orderBy := some (.list [⟨"orders.refunds",true⟩])

theorem refundsOrderNotShown :
    ¬ ∀ (s : Scope) (r : Request) (items : List Value) (before after : Progress) (tables : List (String × Query))
        (select : Select) (order : List SortKey) (limit : Option Nat), r.mergedQueries = some items →
      (s.answer r).Returns before (.mk tables (.select select) order limit) after → ∀ o ∈ order, o.key ∈ select.names := by
  intro all
  have answered : (Compile.ran? (dispatchScope.answer daysByRefunds)).isSome := by decide +kernel
  obtain ⟨q,after,ran⟩ := Compile.ranSome answered
  obtain ⟨queries,_,order,select,answered⟩ := answers rfl ran
  obtain ⟨tables,rfl⟩ := answered.whole
  have sorted : dispatchScope.order daysByRefunds = .ok [⟨refundsUse,true⟩] := by rfl
  cases sorted.symm.trans answered.sorted
  have shown := all _ _ _ _ _ _ _ _ _ rfl ran ⟨"refunds",true⟩ List.mem_cons_self
  exact (namesShown answered).mp shown (refundsHidden answered.read)

end Scope
end SemanticSql
