import SemanticSql.Proofs.GrantedRequests
import SemanticSql.Proofs.MergedColumns
import SemanticSql.Proofs.QualifiedNames

/-! The columns of queries that a request lists one by one. The result has each name once, and reads it from the first
query that shows a field of this name. -/
namespace SemanticSql

open Option (bind_eq_some_iff map_eq_some_iff)
open List Compile MergedQuery JoinedQuery

theorem Document.requestFunnel {entries : Dict Value} {r} (ok : readRequest (.object entries) = some r)
    (missing : entries.get? "funnel" = none) : r.funnel = none := by
  iterate 5 obtain ⟨_,_,ok⟩ := bind_eq_some_iff.mp ok
  obtain ⟨funnel,funnels,ok⟩ := bind_eq_some_iff.mp ok
  iterate 9 obtain ⟨_,_,ok⟩ := bind_eq_some_iff.mp ok
  cases ok
  simp only [Source.open?,Source.slot?,missing,Option.some.injEq] at funnels
  exact funnels.symm

theorem Project.fieldPlain (p : Project) (name : String) : p.field (plainName name) = p.field name := by
  simp only [Project.field,trimmedPlain,plainSame (plainSmall name) (plainBordered name)]

namespace Scope
variable {s : Scope} {r request : Request} {anchors : List FieldUse} {nested : Nested} {before after : Progress} {q : Query}

def Replaces (s : Scope) (d : Renaming) : Prop := ∀ key target, d.get? key = some target → s.isUnknown key

theorem addNameReplaces {names name next} (replaces : s.Replaces names.targets)
    (ok : s.addName r anchors names name = .ok next) : s.Replaces next.targets := by
  rcases addNameCases ok with ⟨rfl,_⟩ | ⟨⟨u,inserted⟩,stands⟩
  · exact replaces
  · intro key target found
    rw [inserted] at found
    by_cases same : key = plainName name
    · rw [same]
      exact by_contra fun known => stands fun unknown => absurd unknown known
    · exact replaces key target (Dict.get?_insert_ne same .. ▸ found)

theorem namesReplace {more : List String} {names final} (replaces : s.Replaces names.targets)
    (ok : more.foldlM (s.addName r anchors) names = .ok final) : s.Replaces final.targets := by
  induction more generalizing names with
  | nil =>
    cases ok
    exact replaces
  | cons name rest ih =>
    rw [foldlM_cons] at ok
    obtain ⟨next,first,later⟩ := exceptBind.mp ok
    exact ih (addNameReplaces replaces first) later

theorem knownKept {names : Names} (named : s.names r = .ok names) {listed uses} (found : s.fields listed = .ok uses) :
    listed.map names.targets.name = listed := by
  have start : s.Replaces ([] : Renaming) := fun key target found => by simp [Dict.get?] at found
  have replaces := namesReplace start named
  refine (map_congr_left fun name mem => ?_).trans (map_id listed)
  obtain ⟨u,_,known⟩ := forallMember (exceptMapM.mp found) mem
  cases there : names.targets.get? (plainName name) with
  | none =>
    rw [Renaming.name,trimmedPlain,there]
    rfl
  | some target =>
    have unknown := replaces _ _ there
    have plain := (s.project.fieldPlain name).trans (fieldFound known)
    have none : s.isUnknown (plainName name) = false := by
      unfold isUnknown
      rw [plain]
    rw [none] at unknown
    cases unknown

theorem distinctNamed (seen : List String) {uses : List FieldUse} {u} (mem : u ∈ uses) :
    u.column ∈ seen ∨ ∃ v ∈ distinctNames seen uses, v.column = u.column := by
  induction uses generalizing seen with
  | nil => cases mem
  | cons w rest ih =>
    rw [distinctNames]
    split
    · rename_i there
      rcases mem_cons.mp mem with rfl | later
      · exact .inl (by simpa using there)
      · exact ih seen later
    · rcases mem_cons.mp mem with rfl | later
      · exact .inr ⟨u,mem_cons_self,rfl⟩
      · rcases ih (w.column :: seen) later with named | ⟨v,inside,same⟩
        · rcases mem_cons.mp named with same | before
          · exact .inr ⟨w,mem_cons_self,same.symm⟩
          · exact .inl before
        · exact .inr ⟨v,mem_cons_of_mem w inside,same⟩

theorem mergedItemsNamed {parts metrics dimensions items} (made : s.mergedItems parts metrics dimensions = .ok items) :
    ∀ u ∈ metrics ++ dimensions, ∃ sql, SelectItem.column sql u.column ∈ items := by
  obtain ⟨own,each,made⟩ := exceptBind.mp made
  obtain ⟨combined,rest,same⟩ := exceptBind.mp made
  cases same
  refine forall_mem_append.mpr ⟨fun u mem => ?_,fun u mem => ?_⟩
  · cases merges : u.field.isMergedResult with
    | true =>
      obtain ⟨item,listed,read⟩ := forallMember (exceptMapM.mp rest) (mem_filter.mpr ⟨mem,merges⟩)
      obtain ⟨sql,_,same⟩ := exceptBind.mp read
      cases same
      exact ⟨sql,mem_append_right _ listed⟩
    | false =>
      have kept : u ∈ metrics.filter fun u => !u.field.isMergedResult := mem_filter.mpr ⟨mem,by simp [merges]⟩
      obtain ⟨v,first,same⟩ := (distinctNamed [] kept).resolve_left (not_mem_nil)
      obtain ⟨item,listed,read⟩ := forallMember (exceptMapM.mp each) first
      obtain ⟨sql,_,made⟩ := exceptBind.mp read
      cases made
      exact ⟨sql,mem_append_left _ (mem_append_left _ (same ▸ listed))⟩
  · obtain ⟨i,there⟩ := mem_iff_getElem?.mp mem
    refine ⟨_,mem_append_left _ (mem_append_right _ (mem_map.mpr ⟨(u, i),?_,rfl⟩))⟩
    exact mem_zipIdx_iff_getElem?.mpr there

theorem mergedSelects (ok : (s.mergedResult nested r).Returns before q after) {metrics dimensions}
    (asked : s.fields r.metrics = .ok metrics) (shown : s.fields r.dimensions = .ok dimensions) :
    ∀ u ∈ metrics ++ dimensions, q.Selects u.column := by
  obtain ⟨_,_,passed,outer,groups,parts,select,run⟩ := merged ok
  cases asked.symm.trans run.asked
  cases shown.symm.trans run.shown
  obtain ⟨before,after,selects⟩ := run.selects
  cases parts with
  | nil => exact absurd selects returnsFail
  | cons first others =>
    simp only [mergedSelect,returnsBind,returnsLift,returnsPure] at selects
    obtain ⟨items,_,⟨made,rfl⟩,conditions,_,_,rfl,_⟩ := selects
    intro u mem
    obtain ⟨sql,listed⟩ := mergedItemsNamed made u mem
    cases q with
    | mk tables body order limit =>
      cases run.body
      exact .column listed

theorem compiledSelects (ok : (s.compileWith nested request).Returns before q after) (plain : request.funnel = none)
    {metrics dimensions} (asked : s.fields request.metrics = .ok metrics)
    (shown : s.fields request.dimensions = .ok dimensions) {u} (mem : u ∈ metrics ++ dimensions)
    (grouped : u.field.isFormula → ¬ s.ShowsRows request) : q.Selects u.column := by
  rw [compileSteps] at ok
  simp only [returnsBind,returnsLift] at ok
  obtain ⟨⟨resolved,merges⟩,_,⟨found,rfl⟩,ok⟩ := ok
  obtain ⟨names,named,same⟩ := exceptBind.mp found
  cases same
  have measures : (names.targets.request request).metrics = request.metrics := knownKept named asked
  have shows : (names.targets.request request).dimensions = request.dimensions := knownKept named shown
  have merged {before q after} (ok : (s.mergedResult nested (names.targets.request request)).Returns before q after) :
      q.Selects u.column := mergedSelects ok (measures ▸ asked) (shows ▸ shown) u mem
  have rows : s.ShowsRows (names.targets.request request) ↔ s.ShowsRows request := by
    simp only [ShowsRows,Scope.asked,measures,shows]
    rfl
  unfold compileResolved at ok
  split at ok
  · exact merged ok
  · simp only [returnsBind] at ok
    obtain ⟨outcome,_,tried,ok⟩ := ok
    cases outcome with
    | ok query =>
      obtain ⟨rfl,_⟩ := returnsPure.mp ok
      obtain ⟨name,listed,known⟩ : ∃ name ∈ request.metrics ++ request.dimensions, s.field name = .ok u := by
        rcases mem_append.mp mem with metric | dimension
        · obtain ⟨name,listed,known⟩ := forallMember (exceptMapM.mp asked).flip metric
          exact ⟨name,mem_append_left _ listed,known⟩
        · obtain ⟨name,listed,known⟩ := forallMember (exceptMapM.mp shown).flip dimension
          exact ⟨name,mem_append_right _ listed,known⟩
      rw [← measures,← shows] at listed
      have single := returnsAttempt.mp tried
      have whole : (names.targets.request request).funnel = none := plain
      exact singleSelects whole single listed (fieldFound known) fun formula => rows.not.mpr (grouped formula)
    | error e =>
      simp only at ok
      split at ok
      · exact merged ok
      · exact absurd ok returnsFail

end Scope

namespace JoinedQuery

def shows (q : JoinedQuery) (name : String) : Bool := q.shown.any fun u => u.column == name

theorem addedGet (q : JoinedQuery) (columns : List (String × String)) (name : String) :
    Dict.get? (q.addColumns columns) name =
      (Dict.get? columns name).or (if q.shows name then some (q.table ++ "." ++ name) else none) := by
  unfold addColumns shows
  generalize q.shown = uses
  induction uses generalizing columns with
  | nil => simp
  | cons u rest ih =>
    rw [foldl_cons,ih]
    have known : (columns.any fun c => c.1 == u.column) = (Dict.get? columns u.column).isSome := by
      rw [Dict.get?,Option.isSome_map,isSome_find?]
    by_cases same : u.column = name
    · subst same
      cases there : Dict.get? columns u.column with
      | some sql => simp [known,there]
      | none =>
        have missing := Option.map_eq_none_iff.mp there
        simp [known,Dict.get?,find?_append,missing]
    · split
      · simp [same]
      · simp [same,Dict.get?,find?_append]

theorem columnsGet (queries : List JoinedQuery) (name : String) : Dict.get? (columns queries) name =
    (queries.find? fun q => q.shows name).map fun q => q.table ++ "." ++ name := by
  have folded : ∀ start, Dict.get? (queries.foldl (fun columns q => q.addColumns columns) start) name =
      (Dict.get? start name).or ((queries.find? fun q => q.shows name).map fun q => q.table ++ "." ++ name) := by
    induction queries with
    | nil => simp
    | cons q rest ih =>
      intro start
      rw [foldl_cons,ih,addedGet,Option.or_assoc]
      congr 1
      cases shown : q.shows name <;> simp [shown]
  simpa [columns,Dict.get?] using folded []

theorem addedDistinct (q : JoinedQuery) {columns : Dict String} (distinct : columns.keys.Nodup) :
    (Dict.keys (q.addColumns columns)).Nodup := by
  unfold addColumns
  generalize q.shown = uses
  induction uses generalizing columns with
  | nil => exact distinct
  | cons u rest ih =>
    rw [foldl_cons]
    refine ih ?_
    split
    · exact distinct
    · rename_i new
      have fresh : u.column ∉ columns.keys := by simpa [Dict.keys] using new
      rw [Dict.keys,map_append]
      exact List.Nodup.append distinct (nodup_singleton _) (disjoint_singleton.mpr fresh)

theorem columnsDistinct (queries : List JoinedQuery) : (Dict.keys (columns queries)).Nodup := by
  have folded : ∀ start : Dict String, start.keys.Nodup →
      (Dict.keys (queries.foldl (fun columns q => q.addColumns columns) start)).Nodup := by
    induction queries with
    | nil => exact fun _ distinct => distinct
    | cons q rest ih => exact fun start distinct => ih _ (addedDistinct q distinct)
  exact folded [] nodup_nil

end JoinedQuery

theorem forallAt {α β : Type} {R : α → β → Prop} {xs : List α} {ys : List β} (all : List.Forall₂ R xs ys) {i : Nat} {x}
    (there : xs[i]? = some x) : ∃ y, ys[i]? = some y ∧ R x y := by
  induction all generalizing i with
  | nil => simp at there
  | @cons a b _ _ head _ ih =>
    cases i with
    | zero =>
      cases Option.some.inj there
      exact ⟨b,rfl,head⟩
    | succ i => exact ih there

namespace MergedQuery

theorem readAsked {s : Scope} {r : Request} {item index q} (ok : read s r item index = .ok q) :
    s.fields q.request.metrics = .ok q.metrics ∧ s.fields q.request.dimensions = .ok q.dimensions ∧
      q.request.funnel = none := by
  obtain ⟨_,checked,ok⟩ := exceptBind.mp ok
  iterate 2 obtain ⟨_,_,ok⟩ := exceptBind.mp ok
  obtain ⟨request,made,ok⟩ := exceptBind.mp ok
  obtain ⟨⟨resolved,merges⟩,found,ok⟩ := exceptBind.mp ok
  obtain ⟨metrics,asked,ok⟩ := exceptBind.mp ok
  obtain ⟨dimensions,shown,same⟩ := exceptBind.mp ok
  cases same
  obtain ⟨names,_,renamed⟩ := exceptBind.mp found
  cases renamed
  refine ⟨asked,shown,?_⟩
  unfold readRequest at made
  split at made
  · cases made
  · rename_i inner document
    cases made
    unfold checkItem at checked
    split at checked
    · cases checked
    · split at checked
      · cases checked
      · rename_i object funnel
        cases item with
        | object entries => exact Document.requestFunnel (r := inner) document (by simpa [Value.get?] using funnel)
        | _ => simp [Value.isObject] at object

end MergedQuery

namespace Scope
variable {s : Scope} {r : Request} {items : List Value} {queries : List JoinedQuery} {before after : Progress} {q : Query}

theorem listedAt (ok : s.listedQueries r items = .ok queries) {i item} (there : items[i]? = some item) :
    ∃ query, queries[i]? = some query ∧ read s r item i = .ok query.toMergedQuery := by
  obtain ⟨parsed,read,joined⟩ := exceptBind.mp ok
  have entry : items.zipIdx[i]? = some (item, i) := by simp [there]
  obtain ⟨q,placed,made⟩ := forallAt (exceptMapM.mp read) entry
  cases parsed with
  | nil => cases joined
  | cons first rest =>
    have entry : (first :: rest).zipIdx[i]? = some (q, i) := by
      rw [getElem?_zipIdx,placed,Option.map_some,Nat.zero_add]
    obtain ⟨query,listed,joins⟩ := forallAt (exceptMapM.mp joined) entry
    exact ⟨query,listed,(joinedListed joins).1 ▸ made⟩

theorem listedTable (ok : s.listedQueries r items = .ok queries) {i : Nat} {query : JoinedQuery}
    (there : queries[i]? = some query) : query.table = tableName i := by
  obtain ⟨requests,_,_,tables⟩ := queriesListed ok
  have named := congrArg (·[i]?) tables
  simp only [getElem?_map,there,Option.map_some] at named
  obtain ⟨j,within,same⟩ := map_eq_some_iff.mp named.symm
  obtain ⟨_,rfl⟩ := List.getElem?_eq_some_iff.mp within
  simpa using same.symm

structure Answers (s : Scope) (r : Request) (items : List Value) (q : Query) (queries : List JoinedQuery)
    (filters : List Filter) (order : List SortField) (select : Select) : Prop where
  read : s.listedQueries r items = .ok queries
  tables : ∀ query ∈ queries, ∃ body, (query.table, body) ∈ q.tables ∧
    ∃ before after, (s.compileWith (s.compile r.depth) query.request).Returns before body after
  bound : ∃ before tables after, ((s.bindAll (s.compile (r.depth + 1)) (r.filter.toList ++ r.having.toList)).run
    []).Returns before (filters, tables) after
  filtered : ∃ before after, (Filter.sqlOf s.context (fun u => listedColumn (columns queries) u)
    filters).Returns before select.conditions after
  sorted : s.order r = .ok order
  items : select.items = (columns queries).map fun c => .column c.2 c.1
  whole : ∃ tables, q = .mk tables (.select select) (order.map fun o => ⟨o.u.column,o.descending⟩) r.limit

theorem answers (listed : r.mergedQueries = some items) (ok : (s.answer r).Returns before q after) :
    ∃ queries filters order select, s.Answers r items q queries filters order select := by
  simp only [answer,listed,mergedQueries,returnsBind,returnsLift,returnsPure] at ok
  obtain ⟨_,_,⟨_,rfl⟩,queries,_,⟨read,rfl⟩,results,middle,ran,⟨filters,tables⟩,_,bound,ok⟩ := ok
  obtain ⟨conditions,_,filtered,order,_,⟨sorted,_⟩,rfl,_⟩ := ok
  refine ⟨queries,filters,order,_,read,fun query mem => ?_,⟨_,_,_,bound⟩,⟨_,_,filtered⟩,sorted,rfl,_,rfl⟩
  have compiled := returnsEach (R := fun (query : JoinedQuery) entry => entry.1 = query.table ∧
    ∃ before after, (s.compile (r.depth + 1) query.request).Returns before entry.2 after) ran
    fun query _ before entry after made => by
      obtain ⟨body,_,compiled,made⟩ := returnsBind.mp made
      obtain ⟨rfl,_⟩ := returnsPure.mp made
      exact ⟨rfl,_,_,compiled⟩
  obtain ⟨⟨_,body⟩,inside,rfl,ran⟩ := forallMember compiled mem
  exact ⟨body,mem_append_left _ inside,ran⟩

theorem answeredNames {filters order select} (answered : s.Answers r items q queries filters order select) :
    select.names = Dict.keys (columns queries) := by
  rw [Select.names,answered.items,filterMap_map]
  exact congrFun filterMap_eq_map _

theorem shownFrom {filters order select} (answered : s.Answers r items q queries filters order select) {i : Nat}
    {query : JoinedQuery} (there : queries[i]? = some query) {name : String} :
    .column (tableName i ++ "." ++ name) name ∈ select.items ↔
      query.shows name ∧ ∀ earlier ∈ queries.take i, earlier.shows name = false := by
  have item : .column (tableName i ++ "." ++ name) name ∈ select.items ↔
      (name, tableName i ++ "." ++ name) ∈ columns queries := by
    rw [answered.items]
    simp
  rw [item,Dict.distinctGet (columnsDistinct queries),columnsGet,map_eq_some_iff]
  constructor
  · rintro ⟨first,found,same⟩
    obtain ⟨shown,j,inside,rfl,others⟩ := find?_eq_some_iff_getElem.mp found
    have table := listedTable answered.read (getElem?_eq_getElem inside)
    have place : i = j := by
      refine digitsInjective ((String.append_right_inj "merged_query_").mp (?_ : tableName i = tableName j))
      rw [← table]
      exact ((String.append_left_inj _).mp ((String.append_left_inj _).mp same)).symm
    subst place
    cases (getElem?_eq_getElem inside).symm.trans there
    refine ⟨shown,fun earlier mem => ?_⟩
    obtain ⟨k,before,rfl⟩ := mem_take_iff_getElem.mp mem
    simpa using others k (by omega)
  · rintro ⟨shown,others⟩
    obtain ⟨inside,rfl⟩ := List.getElem?_eq_some_iff.mp there
    refine ⟨queries[i],find?_eq_some_iff_getElem.mpr ⟨shown,i,inside,rfl,fun j before => ?_⟩,?_⟩
    · have earlier : queries[j] ∈ queries.take i := mem_take_iff_getElem.mpr ⟨j,by omega,rfl⟩
      simp [others _ earlier]
    · rw [listedTable answered.read there]

theorem metricShown? {query : JoinedQuery} {m} (mem : m ∈ query.metrics) (hidden : query.shows m.column = false) :
    ∃ key ∈ query.keys, key.1.same m := by
  by_contra none
  have kept : m ∈ query.shown := by
    refine mem_filter.mpr ⟨mem_append_left _ mem,?_⟩
    simpa using none
  have shown : query.shows m.column := any_eq_true.mpr ⟨m,kept,beq_self_eq_true _⟩
  rw [hidden] at shown
  cases shown

theorem listedMetricsShown (listed : r.mergedQueries = some items) (ok : (s.answer r).Returns before q after) :
    ∃ queries select, s.listedQueries r items = .ok queries ∧ q.body = .select select ∧ select.names.Nodup ∧
      ∀ i item, items[i]? = some item →
        ∃ query, queries[i]? = some query ∧ MergedQuery.read s r item i = .ok query.toMergedQuery ∧
          ∀ m ∈ query.metrics,
            (.column (MergedQuery.tableName i ++ "." ++ m.column) m.column ∈ select.items ↔
              query.shows m.column ∧ ∀ earlier ∈ queries.take i, earlier.shows m.column = false) ∧
            (query.shows m.column = false → ∃ key ∈ query.keys, key.1.same m) ∧
            ∃ body, (MergedQuery.tableName i, body) ∈ q.tables ∧
              ((m.field.isFormula → ¬ s.ShowsRows query.request) → body.Selects m.column) := by
  obtain ⟨queries,filters,order,select,answered⟩ := answers listed ok
  have body : q.body = .select select := by
    obtain ⟨_,rfl⟩ := answered.whole
    rfl
  refine ⟨queries,select,answered.read,body,?_,fun i item there => ?_⟩
  · rw [answeredNames answered]
    exact JoinedQuery.columnsDistinct queries
  · obtain ⟨query,placed,read⟩ := listedAt answered.read there
    refine ⟨query,placed,read,fun m mem => ⟨shownFrom answered placed,metricShown? mem,?_⟩⟩
    obtain ⟨asked,shown,plain⟩ := MergedQuery.readAsked read
    obtain ⟨body,table,before,after,compiled⟩ := answered.tables query (List.mem_of_getElem? placed)
    rw [listedTable answered.read placed] at table
    exact ⟨body,table,compiledSelects compiled plain asked shown (List.mem_append_left _ mem)⟩

theorem freightShownBySecond : ∃ q after select, (dispatchScope.answer dayQueries).Returns {} q after ∧
    q.body = .select select ∧ .column "merged_query_1.freight" "freight" ∈ select.items ∧
    ∃ body, ("merged_query_1", body) ∈ q.tables ∧ body.Selects "freight" := by
  obtain ⟨q,after,ran⟩ := dayQueriesAnswered
  obtain ⟨queries,select,read,body,_,each⟩ := listedMetricsShown rfl ran
  have sums : (dispatchScope.listedQueries dayQueries dayItems).toOption.map (fun queries =>
      ((queries.take 1).all fun query => !query.shows "freight", queries[1]?.map fun query =>
        (query.shows "freight", query.metrics.map fun m => (m.column, m.field.isFormula)))) =
      some (true, some (true, [("freight", false)])) := by decide +kernel
  obtain ⟨query,second,_,metrics⟩ := each 1 _ rfl
  rw [read] at sums
  obtain ⟨earlier,sums⟩ := Prod.mk.inj (Option.some.inj sums)
  rw [second] at sums
  obtain ⟨shown,freight⟩ := Prod.mk.inj (Option.some.inj sums)
  obtain ⟨m,mem,plain⟩ := List.mem_map.mp (freight ▸ List.mem_singleton_self ("freight", false))
  obtain ⟨named,summed⟩ := Prod.mk.inj plain
  obtain ⟨selected,_,table,inside,selects⟩ := metrics m mem
  rw [named] at selected selects
  refine ⟨q,after,select,ran,body,selected.mpr ⟨shown,?_⟩,table,inside,selects ?_⟩
  · simpa using earlier
  · simp [summed]

def revenueItems : List Value := [dayItem ["revenue"] [],dayItem ["revenue"]
  [("join_fields", .list [.object [("field", .str "placed_date"),("source_field", .str "placed_date")]])]]

def revenueTwice : Request where
  mergedQueries := some revenueItems

theorem secondRevenueDropped :
    ¬ ∀ (s : Scope) (r : Request) (items : List Value) (before after : Progress) (q : Query),
      r.mergedQueries = some items → (s.answer r).Returns before q after → ∀ i item query, items[i]? = some item →
      MergedQuery.read s r item i = .ok query → ∀ m ∈ query.metrics, ∃ select name, q.body = .select select ∧
        .column (MergedQuery.tableName i ++ "." ++ m.column) name ∈ select.items := by
  intro all
  have answered : (Compile.ran? (dispatchScope.answer revenueTwice)).isSome := by decide +kernel
  obtain ⟨q,after,ran⟩ := Compile.ranSome answered
  obtain ⟨queries,_,_,select,answered⟩ := answers rfl ran
  have columns : (dispatchScope.listedQueries revenueTwice revenueItems).toOption.map
      (fun queries => (JoinedQuery.columns queries, queries.map fun query => query.metrics.map FieldUse.column)) =
      some ([("revenue", "merged_query_0.revenue"),("placed_date", "merged_query_0.placed_date")],
        [["revenue"],["revenue"]]) := by decide +kernel
  rw [answered.read] at columns
  obtain ⟨shown,metrics⟩ := Prod.mk.inj (Option.some.inj columns)
  obtain ⟨query,placed,read⟩ := listedAt answered.read (i := 1) rfl
  have named : query.metrics.map FieldUse.column = ["revenue"] := by
    have second := congrArg (·[1]?) metrics
    simpa [placed] using second
  obtain ⟨m,mem,revenue⟩ := List.mem_map.mp (named ▸ List.mem_singleton_self "revenue")
  obtain ⟨select',name,body,column⟩ := all _ _ _ _ _ q rfl ran 1 _ _ rfl read m mem
  obtain ⟨_,rfl⟩ := answered.whole
  cases body
  have second : MergedQuery.tableName 1 ++ "." ++ "revenue" = "merged_query_1.revenue" := by decide +kernel
  rw [answered.items,shown,revenue,second] at column
  simp at column

end Scope
end SemanticSql
