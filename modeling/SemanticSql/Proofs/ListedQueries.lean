import SemanticSql.Proofs.NestedDepth

/-! Queries that a request lists one by one, each beside the same query on its own. The names of a listed query are
resolved before it is compiled, and what resolving them says about merging is dropped. -/
namespace SemanticSql.Scope

open Compile MergedQuery

variable {s : Scope} {r request : Request} {names : Names} {nested : Nested}

def compileAlone (s : Scope) (request : Request) : Compile Query := s.compile (request.depth + 1) request

def compileListed (s : Scope) (request : Request) : Compile Query := do
  let (resolved, _) ← s.resolveNames request
  s.compileAlone resolved

theorem resolvesTo (named : s.names request = .ok names) :
    s.resolveNames request = .ok (names.targets.request request, names.merges) := exceptBind.mpr ⟨names,named,rfl⟩

theorem compileFrom {resolved merges} (ok : s.resolveNames request = .ok (resolved, merges)) :
    s.compileWith nested request = s.compileResolved nested resolved merges := by
  rw [compileSteps,ok]
  rfl

theorem aloneResolved (named : s.names request = .ok names) : s.compileAlone request =
    s.compileResolved (s.compile request.depth) (names.targets.request request) names.merges :=
  compileFrom (resolvesTo named)

theorem listedFrom {resolved merges} (ok : s.resolveNames request = .ok (resolved, merges)) :
    s.compileListed request = s.compileAlone resolved := by
  rw [compileListed,ok]
  rfl

theorem listedResolved (named : s.names request = .ok names) (settles : s.Settles names.targets) :
    s.compileListed request =
      s.compileResolved (s.compile request.depth) (names.targets.request request) false := by
  rw [listedFrom (resolvesTo named),compileAlone,Renaming.requestDepth]
  exact compileFrom (resolveAgain named settles)

def mergesAnyway (s : Scope) (r : Request) : Bool := r.mergedResult || s.asksMerged r

theorem resolvedMerged (anyway : s.mergesAnyway r) {merges} :
    s.compileResolved nested r merges = s.mergedResult nested r := by
  unfold compileResolved
  rw [if_pos]
  rcases Bool.or_eq_true_iff.mp anyway with asked | metric
  · simp [asked]
  · simp [metric]

structure Compared (s : Scope) (request : Request) (names : Names) : Prop where
  named : s.names request = .ok names
  alone : s.compileAlone request =
    s.compileResolved (s.compile request.depth) (names.targets.request request) names.merges
  listed : s.Settles names.targets → s.compileListed request =
    s.compileResolved (s.compile request.depth) (names.targets.request request) false
  same : s.Settles names.targets → (names.merges → s.mergesAnyway (names.targets.request request)) →
    s.compileListed request = s.compileAlone request

theorem compared (named : s.names request = .ok names) : s.Compared request names where
  named := named
  alone := aloneResolved named
  listed := listedResolved named
  same settles kept := by
    rw [aloneResolved named,listedResolved named settles]
    cases merges : names.merges with
    | false => rfl
    | true => rw [resolvedMerged (kept merges),resolvedMerged (kept merges)]

def ResolvedAs (s : Scope) (request : Request) (q : MergedQuery) : Prop :=
  ∃ merges, s.resolveNames request = .ok (q.request, merges)

theorem readListed {item index q} (ok : read s r item index = .ok q) :
    ∃ request, readRequest r item = .ok request ∧ s.ResolvedAs request q := by
  iterate 3 obtain ⟨_,_,ok⟩ := exceptBind.mp ok
  obtain ⟨request,read,ok⟩ := exceptBind.mp ok
  obtain ⟨⟨resolved,merges⟩,found,ok⟩ := exceptBind.mp ok
  iterate 2 obtain ⟨_,_,ok⟩ := exceptBind.mp ok
  cases ok
  exact ⟨request,read,merges,found⟩

theorem joinedListed {first : List FieldUse} {q : MergedQuery} {index joined} (ok : q.joined s first index = .ok joined) :
    joined.toMergedQuery = q ∧ joined.table = tableName index := by
  obtain ⟨keys,_,same⟩ := exceptBind.mp ok
  cases same
  exact ⟨rfl,rfl⟩

theorem requestListed {item : Value} (ok : readRequest r item = .ok request) : request.depth < item.depth := by
  unfold readRequest at ok
  split at ok
  · cases ok
  · rename_i read
    have below := Document.requestDepth read
    cases ok
    exact below

theorem listedCompiled {resolved merges k} (below : request.depth < k)
    (found : s.resolveNames request = .ok (resolved, merges)) :
    s.compileListed request = s.compile (k + 1) resolved := by
  obtain ⟨names,_,same⟩ := exceptBind.mp found
  cases same
  rw [listedFrom found,compileAlone]
  refine compileDepth (Nat.lt_succ_self _) ?_
  rw [Renaming.requestDepth]
  exact Nat.lt_succ_of_lt below

theorem queriesListed {items queries} (ok : s.listedQueries r items = .ok queries) :
    ∃ requests, List.Forall₂ (fun item request => readRequest r item = .ok request) items requests ∧
      List.Forall₂ (fun request q => s.ResolvedAs request q.toMergedQuery) requests queries ∧
      queries.map JoinedQuery.table = (List.range items.length).map tableName := by
  obtain ⟨parsed,read,joined⟩ := exceptBind.mp ok
  have entries := exceptMapM.mp read
  have length : items.length = parsed.length := by simpa using entries.length_eq
  have found : List.Forall₂ (fun item q => ∃ request, readRequest r item = .ok request ∧ s.ResolvedAs request q)
      (items.zipIdx.map Prod.fst) parsed :=
    List.forall₂_map_left_iff.mpr (entries.imp fun entry q ok => readListed ok)
  obtain ⟨requests,reads,resolved⟩ := forallBetween (by simpa using found)
  cases parsed with
  | nil => cases joined
  | cons first rest =>
    have each := exceptMapM.mp joined
    have same : queries.map JoinedQuery.toMergedQuery = first :: rest := by
      rw [← forallMap each fun entry q ok => (joinedListed ok).1.symm]
      exact List.zipIdx_map_fst 0 _
    have tables : queries.map JoinedQuery.table = ((first :: rest).zipIdx.map Prod.snd).map tableName := by
      rw [List.map_map]
      exact (forallMap each fun entry q ok => (joinedListed ok).2.symm).symm
    refine ⟨requests,reads,?_,?_⟩
    · exact List.forall₂_map_right_iff.mp (same ▸ resolved)
    · rw [tables,length,List.zipIdx_map_snd,List.range_eq_range']

theorem resultsListed {requests : List Request} {queries : List JoinedQuery} {before results middle}
    (each : List.Forall₂ (fun request q => s.compileListed request = nested q.request) requests queries)
    (ok : (queries.mapM fun q : JoinedQuery => do return (q.table, ← nested q.request)).Returns before results middle) :
    ∃ bodies, (requests.mapM s.compileListed).Returns before bodies middle ∧
      results = (queries.map JoinedQuery.table).zip bodies := by
  induction each generalizing before results with
  | nil =>
    obtain ⟨rfl,rfl⟩ := returnsPure.mp ok
    exact ⟨[],returnsPure.mpr ⟨rfl,rfl⟩,rfl⟩
  | @cons request q _ _ same _ ih =>
    obtain ⟨entry,next,rest,first,later,rfl⟩ := returnsMapCons.mp ok
    obtain ⟨body,_,compiled,made⟩ := returnsBind.mp first
    obtain ⟨rfl,rfl⟩ := returnsPure.mp made
    obtain ⟨bodies,ran,rfl⟩ := ih later
    exact ⟨body :: bodies,returnsMapCons.mpr ⟨body,_,bodies,same ▸ compiled,ran,rfl⟩,rfl⟩

theorem answerListed {items before q after} (listed : r.mergedQueries = some items)
    (ok : (s.answer r).Returns before q after) :
    ∃ queries results middle rest, s.listedQueries r items = .ok queries ∧
      (queries.mapM fun q : JoinedQuery => do return (q.table, ← s.compile (r.depth + 1) q.request)).Returns before
        results middle ∧
      q.tables = results ++ rest := by
  simp only [answer,listed,mergedQueries,returnsBind,returnsLift,returnsPure] at ok
  obtain ⟨_,_,⟨_,rfl⟩,queries,_,⟨read,rfl⟩,results,middle,ran,⟨filters,tables⟩,_,_,ok⟩ := ok
  obtain ⟨conditions,_,_,order,_,_,rfl,_⟩ := ok
  exact ⟨queries,results,middle,tables,read,ran,rfl⟩

theorem listedAsAlone {items before q after} (listed : r.mergedQueries = some items)
    (ok : (s.answer r).Returns before q after) : ∃ requests bodies middle rest,
      List.Forall₂ (fun item request => MergedQuery.readRequest r item = .ok request) items requests ∧
      (requests.mapM s.compileListed).Returns before bodies middle ∧
      q.tables = ((List.range items.length).map MergedQuery.tableName).zip bodies ++ rest ∧
      ∀ request ∈ requests, ∃ names, s.Compared request names := by
  obtain ⟨queries,results,middle,rest,read,ran,tables⟩ := answerListed listed ok
  obtain ⟨requests,reads,resolved,named⟩ := queriesListed read
  have shallow : ∀ request ∈ requests, request.depth < r.depth := by
    intro request mem
    obtain ⟨item,known,read⟩ := forallMember reads.flip mem
    have inside := (Request.depthLe.mp (Nat.le_refl r.depth)).2.2.2 items listed item known
    exact Nat.lt_of_lt_of_le (requestListed read) inside
  have each : List.Forall₂ (fun request (q : JoinedQuery) => s.compileListed request = s.compile (r.depth + 1) q.request)
      requests queries :=
    ((List.forall₂_and_left requests queries).mpr ⟨shallow,resolved⟩).imp fun request q ⟨below,merges,found⟩ =>
      listedCompiled below found
  obtain ⟨bodies,compiled,rfl⟩ := resultsListed each ran
  refine ⟨requests,bodies,middle,rest,reads,compiled,named ▸ tables,fun request mem => ?_⟩
  obtain ⟨q,_,merges,found⟩ := forallMember resolved mem
  obtain ⟨names,known,_⟩ := exceptBind.mp found
  exact ⟨names,compared known⟩

def dayItem (metrics : List String) (joins : List (String × Value)) : Value :=
  .object ([("metrics", .list (metrics.map .str)),("dimensions", .list [.str "date"])] ++ joins)

def dayJoin : String × Value :=
  ("join_fields", .list [.object [("field", .str "shipped_date"),("source_field", .str "placed_date")]])

def dayRequest (metrics : List String) : Request where
  metrics := metrics
  dimensions := ["date"]

def dayItems : List Value := [dayItem ["revenue"] [],dayItem ["freight"] [dayJoin]]

def dayQueries : Request where
  mergedQueries := some dayItems

theorem dispatchSettles (d : Renaming) : dispatchScope.Settles d := fun _ _ _ _ => rfl

theorem dayQueriesAnswered : ∃ q after, (dispatchScope.answer dayQueries).Returns {} q after :=
  Compile.ranSome (by decide +kernel)

theorem dayQueriesAsAlone : ∃ q after bodies middle rest, (dispatchScope.answer dayQueries).Returns {} q after ∧
    ([dayRequest ["revenue"],dayRequest ["freight"]].mapM dispatchScope.compileAlone).Returns {} bodies middle ∧
    q.tables = ["merged_query_0","merged_query_1"].zip bodies ++ rest := by
  obtain ⟨q,after,ran⟩ := dayQueriesAnswered
  obtain ⟨requests,bodies,middle,rest,reads,compiled,tables,each⟩ := listedAsAlone rfl ran
  cases (exceptMapM.mpr reads).symm.trans (by rfl : _ = .ok [dayRequest ["revenue"],dayRequest ["freight"]])
  -- one metric has one date, so its name asks for no merging
  have unmerged : ∀ request ∈ [dayRequest ["revenue"],dayRequest ["freight"]],
      (dispatchScope.names request).toOption.map Names.merges = some false := by decide +kernel
  have same : ∀ request ∈ [dayRequest ["revenue"],dayRequest ["freight"]],
      dispatchScope.compileListed request = dispatchScope.compileAlone request := by
    intro request mem
    obtain ⟨names,compared⟩ := each request mem
    have plain : names.merges = false := by simpa [compared.named,Except.toOption] using unmerged request mem
    exact compared.same (dispatchSettles _) fun merges => by simp [plain] at merges
  rw [Compile.mapSame same] at compiled
  exact ⟨q,after,bodies,middle,rest,ran,compiled,tables⟩

def bothQueries : Request where
  mergedQueries := some [dayItem ["revenue","freight"] []]

theorem freightListedByPlacement :
    ¬ ∀ (s : Scope) (r : Request) (items : List Value) (before after : Progress) (q : Query),
      r.mergedQueries = some items → (s.answer r).Returns before q after → ∃ requests bodies middle rest,
      List.Forall₂ (fun item request => MergedQuery.readRequest r item = .ok request) items requests ∧
      (requests.mapM s.compileAlone).Returns before bodies middle ∧
      q.tables = ((List.range items.length).map MergedQuery.tableName).zip bodies ++ rest := by
  intro all
  have answered : (Compile.ran? (dispatchScope.answer bothQueries)).map
    (fun q => q.tables.map fun t => t.2.tables.length) = some [0] := by decide +kernel
  have parts : (Compile.ran? (dispatchScope.compileAlone (dayRequest ["revenue","freight"]))).map
    (fun q => q.tables.length) = some 2 := by decide +kernel
  obtain ⟨q,result,joined⟩ := Option.map_eq_some_iff.mp answered
  obtain ⟨after,ran⟩ := Compile.ranReturns result
  obtain ⟨requests,bodies,middle,rest,reads,compiled,tables⟩ := all _ _ _ _ _ q rfl ran
  cases (exceptMapM.mpr reads).symm.trans (by rfl : _ = .ok [dayRequest ["revenue","freight"]])
  obtain ⟨body,_,_,first,last,rfl⟩ := Compile.returnsMapCons.mp compiled
  cases (Compile.returnsPure.mp last).1
  have alone : body.tables.length = 2 := by simpa [Compile.returnsRan first] using parts
  have inside : body.tables.length ∈ [0] := by
    rw [← joined,tables]
    simp
  simp [alone] at inside

end SemanticSql.Scope
