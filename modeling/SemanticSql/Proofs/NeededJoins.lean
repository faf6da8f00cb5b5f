import SemanticSql.Proofs.JoinCompleteness

/-! Which joined views a query needs. A patched path runs outside the joined views, so each of its joins leads to the
next or to a required view; only the join that a search was seeded with may lead nowhere. -/
namespace SemanticSql.JoinPlan

open List JoinGraph

theorem cleanLast {edges joined joins} (grows : Grows edges joined joins) (last : Join) :
    cleanFrom joined (joins ++ [last]) = joins ∨ cleanFrom joined (joins ++ [last]) = joins ++ [last] := by
  induction grows with
  | nil joined =>
    simp only [nil_append,cleanFrom]
    split
    · exact .inl rfl
    · exact .inr rfl
  | @cons joined j rest edge rooted fresh next ih =>
    have apart : j.base ≠ j.target := fun same => fresh (same ▸ rooted)
    simpa [cleanFrom,apart,fresh] using ih

theorem leadsGrows {edges source path target joined} (chain : Leads edges source path target) (start : source ∈ joined)
    (once : PassesOnce source path) (outside : ∀ v ∈ path.map Join.target, v ∉ joined) : Grows edges joined path := by
  induction chain generalizing joined with
  | here => exact .nil joined
  | @step j rest target edge next ih =>
    obtain ⟨_,later⟩ := nodup_cons.mp once
    refine .cons edge start (outside _ mem_cons_self) (ih mem_cons_self later ?_)
    intro v mem known
    rcases mem_cons.mp known with rfl | old
    · exact (nodup_cons.mp later).1 mem
    · exact outside v (mem_cons_of_mem _ mem) old

theorem leadsStart {edges source path target} (chain : Leads edges source path target) :
    source = target ∨ ∃ k ∈ path, k.base = source := by
  cases chain with
  | here => exact .inl rfl
  | step edge next => exact .inr ⟨_,mem_cons_self,rfl⟩

theorem leadsOn {edges source path target} (chain : Leads edges source path target) :
    ∀ j ∈ path, j.target = target ∨ ∃ k ∈ path, k.base = j.target := by
  intro j mem
  obtain ⟨before,after,rfl⟩ := append_of_mem mem
  rcases leadsStart (leadsSplit chain).2.2 with last | ⟨k,next,leaves⟩
  · exact .inl last
  · exact .inr ⟨k,mem_append_right _ (mem_cons_of_mem j next),leaves⟩

def Needed (required : NameSet) (joins : List Join) (v : String) : Prop :=
  v ∈ required ∨ ∃ k ∈ joins, k.base = v

theorem neededMore {required joins more v} (needed : Needed required joins v) : Needed required (joins ++ more) v := by
  rcases needed with asked | ⟨k,mem,leaves⟩
  · exact .inl asked
  · exact .inr ⟨k,mem_append_left _ mem,leaves⟩

def NeededBeside (required : NameSet) (spare : List String) (joins : List Join) : Prop :=
  ∀ j ∈ joins, j.target ∈ spare ∨ Needed required joins j.target

section
variable {g : JoinGraph} {base : String} {required : NameSet}

theorem cheapestFold {best p} {paths : List (List Join)}
    (ok : paths.foldl (fun best p => if pathCost p < pathCost best then p else best) p = best) :
    ∀ q ∈ p :: paths, pathCost best ≤ pathCost q := by
  induction paths generalizing p with
  | nil => simp [← ok]
  | cons r rest ih =>
    rw [foldl_cons] at ok
    intro q mem
    split at ok
    · rename_i cheaper
      rcases mem_cons.mp mem with rfl | later
      · exact le_of_lt (lt_of_le_of_lt (ih ok r mem_cons_self) cheaper)
      · exact ih ok q later
    · rename_i dearer
      have first := ih ok p mem_cons_self
      rcases mem_cons.mp mem with rfl | later
      · exact first
      · rcases mem_cons.mp later with rfl | last
        · exact first.trans (Nat.not_lt.mp dearer)
        · exact ih ok q (mem_cons_of_mem p last)

theorem cheapestLeast {sources target best} (found : cheapest? g sources target = some best) :
    (∃ source ∈ sources, g.path? source target = some best) ∧
      ∀ source ∈ sources, ∀ path, g.path? source target = some path → pathCost best ≤ pathCost path := by
  refine ⟨cheapestPath found,fun source known path way => ?_⟩
  simp only [cheapest?] at found
  split at found
  · contradiction
  · rename_i p rest paths
    refine cheapestFold (Option.some.inj found) path ?_
    rw [← paths]
    exact mem_filterMap.mpr ⟨source,known,way⟩

/- A joined view on the way would be a cheaper place to start from. -/
theorem cheapestOutside (closed : g.Closed) {sources target best} (found : cheapest? g sources target = some best) :
    ∀ v ∈ best.map Join.target, v ∉ sources := by
  obtain ⟨⟨source,_,way⟩,least⟩ := cheapestLeast found
  intro v passed known
  obtain ⟨j,mem,rfl⟩ := mem_map.mp passed
  obtain ⟨before,after,rfl⟩ := append_of_mem mem
  obtain ⟨edge,_,last⟩ := leadsSplit (pathLeads way)
  have inGraph : g.containsView j.target := contains_iff_mem.mpr (closed j edge).2
  obtain ⟨short,direct⟩ := pathFound closed inGraph last
  have most := least j.target known short direct
  have less := pathCheapest closed direct last
  have positive := weightPositive j
  rw [costAppend,costCons] at most
  omega

theorem patchedNeeded (closed : g.Closed) {spare joins target path} (grows : Grows g.joins [base] joins)
    (needed : NeededBeside required spare joins) (asked : target ∈ required)
    (found : cheapest? g (joinedViews base joins) target = some path) :
    NeededBeside required spare (clean base (joins ++ path)) := by
  obtain ⟨⟨source,joined,way⟩,_⟩ := cheapestLeast found
  have chain := pathLeads way
  have same : ∀ v, v ∈ joins.map Join.target ++ [base] ↔ v ∈ joinedViews base joins := by
    intro v
    rw [joinedMember,mem_append,mem_singleton,or_comm]
  have further : Grows g.joins (joins.map Join.target ++ [base]) path :=
    leadsGrows chain ((same source).mpr joined) (pathPassesOnce closed way)
      fun v passed known => cheapestOutside closed found v passed ((same v).mp known)
  rw [clean,cleanKeeps (growsAppend grows further)]
  intro j mem
  rcases mem_append.mp mem with old | new
  · exact (needed j old).imp_right neededMore
  · right
    rcases leadsOn chain j new with last | ⟨k,next,leaves⟩
    · exact .inl (last ▸ asked)
    · exact .inr ⟨k,mem_append_right _ next,leaves⟩

theorem patchNeeded (closed : g.Closed) (n : Nat) {spare joins} (grows : Grows g.joins [base] joins)
    (needed : NeededBeside required spare joins) : NeededBeside required spare (patch g base required n joins).1 := by
  induction n generalizing joins with
  | zero => exact needed
  | succ n ih =>
    rw [patch]
    split
    · rename_i path found
      obtain ⟨target,missing,cheapest⟩ := exists_of_findSome?_eq_some found
      obtain ⟨source,joined,chain⟩ := cheapestLeads cheapest
      have asked := (mem_filter.mp missing).1
      exact ih (patchedGrows grows joined chain) (patchedNeeded closed grows needed asked cheapest)
    · exact needed

theorem pathGrows (closed : g.Closed) {target path} (way : g.path? base target = some path) :
    Grows g.joins [base] path := by
  have once := pathPassesOnce closed way
  refine leadsGrows (pathLeads way) (mem_singleton.mpr rfl) once fun v passed root => ?_
  exact (nodup_cons.mp once).1 (mem_singleton.mp root ▸ passed)

theorem seededNeeded (closed : g.Closed) {seed path} (way : g.path? base seed.base = some path) :
    ∃ spare, (spare = seed.base ∨ spare = seed.target) ∧
      NeededBeside required [spare] (clean base (path ++ [seed])) := by
  have chain := pathLeads way
  rcases cleanLast (pathGrows closed way) seed with dropped | kept
  · refine ⟨seed.base,.inl rfl,?_⟩
    rw [clean,dropped]
    intro j mem
    rcases leadsOn chain j mem with last | next
    · exact .inl (mem_singleton.mpr last)
    · exact .inr (.inr next)
  · refine ⟨seed.target,.inr rfl,?_⟩
    rw [clean,kept]
    intro j mem
    rcases mem_append.mp mem with onWay | last
    · right
      rcases leadsOn chain j onWay with last | ⟨k,next,leaves⟩
      · exact .inr ⟨seed,by simp,last.symm⟩
      · exact .inr ⟨k,mem_append_left _ next,leaves⟩
    · exact .inl (by simp [mem_singleton.mp last])

/- The first seed that the base reaches decides: either it is patched to a plan, or nothing can be. -/
theorem triedNeeded (closed : g.Closed) {seeds : List Join} (edges : ∀ j ∈ seeds, j ∈ g.joins) {best joins}
    (before : ∀ fewest ∈ best, fewest = unreached g base required)
    (ok : trySeeds g base required best seeds = .ok joins) :
    ∃ seed spare, (seeds.find? fun j => (g.reachable base).contains j.base) = some seed ∧
      (spare = seed.base ∨ spare = seed.target) ∧ NeededBeside required [spare] joins := by
  induction seeds generalizing best with
  | nil => contradiction
  | cons seed rest ih =>
    have later := fun j mem => edges j (mem_cons_of_mem seed mem)
    have reach : (∃ path, g.path? base seed.base = some path) ↔ seed.base ∈ g.reachable base :=
      pathReaches closed
    rw [find?_cons]
    cases way : g.path? base seed.base with
    | none =>
      have away : seed.base ∉ g.reachable base := fun mem => by simpa [way] using reach.mpr mem
      rw [trySeeds,way] at ok
      simpa [away] using ih later before ok
    | some path =>
      have near : seed.base ∈ g.reachable base := reach.mp ⟨path,way⟩
      have known := pathKnown way
      have grows := seededGrows (edges seed mem_cons_self) way
      have missing : (patch g base required required.length (clean base (path ++ [seed]))).2 =
          unreached g base required := patchAll closed known grows
      by_cases all : unreached g base required = []
      · obtain ⟨spare,ends,needed⟩ := seededNeeded closed way
        simp only [trySeeds,way,missing,all,isEmpty_nil,if_true] at ok
        rw [← Except.ok.inj ok]
        exact ⟨seed,spare,by simp [near],ends,patchNeeded closed _ grows needed⟩
      · obtain ⟨last,fails,_⟩ := triedFails closed known all edges before
        rw [ok] at fails
        contradiction

theorem foundInside (leaving : List Join) {visited : List String} {found : List Join}
    (inside : ∀ j ∈ found, j.target ∈ required) {acc} (ok : leaving.foldl
      (fun (acc : List String × List Join) j =>
        if required.contains j.target && !acc.1.contains j.target then (j.target :: acc.1, acc.2 ++ [j])
        else acc)
      (visited, found) = acc) : ∀ j ∈ acc.2, j.target ∈ required := by
  induction leaving generalizing visited found with
  | nil => exact ok ▸ inside
  | cons j rest ih =>
    rw [foldl_cons] at ok
    split at ok
    · rename_i taken
      refine ih (fun k mem => ?_) ok
      rcases mem_append.mp mem with old | new
      · exact inside k old
      · rw [mem_singleton.mp new]
        exact contains_iff_mem.mp (Bool.and_eq_true_iff.mp taken).1
    · exact ih inside ok

theorem searchInside (n : Nat) {queue visited tree} (inside : ∀ j ∈ tree, j.target ∈ required) :
    ∀ j ∈ searchTree g required n queue visited tree, j.target ∈ required := by
  induction n generalizing queue visited tree with
  | zero => exact inside
  | succ n ih =>
    cases queue with
    | nil => exact inside
    | cons view queue =>
      rw [searchTree]
      generalize outcome : List.foldl _ (visited, ([] : List Join)) (g.outgoing view) = acc
      refine ih fun j mem => ?_
      rcases mem_append.mp mem with old | new
      · exact inside j old
      · exact foundInside (g.outgoing view) (by simp) outcome j new

theorem cleanMember {joined joins} {j : Join} (mem : j ∈ cleanFrom joined joins) : j ∈ joins := by
  induction joins generalizing joined with
  | nil => exact mem
  | cons k rest ih =>
    rw [cleanFrom] at mem
    split at mem
    · exact mem_cons_of_mem k (ih mem)
    · rcases mem_cons.mp mem with rfl | later
      · exact mem_cons_self
      · exact mem_cons_of_mem k (ih later)

theorem inducedInside {joins} (ok : induced? g base required = some joins) : ∀ j ∈ joins, j.target ∈ required := by
  simp only [induced?] at ok
  split at ok
  · obtain ⟨out,sorted,rfl⟩ := Option.map_eq_some_iff.mp ok
    intro j mem
    have found := (sortedSupported (searchedGrows g base required) sorted).1.mem_iff.mp (cleanMember mem)
    exact searchInside _ (by simp) j found
  · contradiction

theorem coverNeeded (closed : g.Closed) {joins} (ok : cover g base required = .ok joins) :
    NeededBeside required [] joins ∨
      ∃ seed spare, ((seeds g required).find? fun j => (g.reachable base).contains j.base) = some seed ∧
        (spare = seed.base ∨ spare = seed.target) ∧ NeededBeside required [spare] joins := by
  simp only [cover] at ok
  split at ok
  · rename_i found tried
    cases Except.ok.inj ok
    exact .inr (triedNeeded closed (fun j mem => seedEdge mem) (by simp) tried)
  · split at ok
    · cases Except.ok.inj ok
      exact .inl (patchNeeded closed _ (.nil [base]) (by simp [NeededBeside]))
    · split at ok <;> contradiction

theorem solvedNeeded (closed : g.Closed) (root : base ∈ required) {joins} (ok : solve g base required = .ok joins) :
    NeededBeside required [] joins ∨ induced? g base required = none ∧ 2 < required.length ∧
      ∃ seed spare, ((seeds g required).find? fun j => (g.reachable base).contains j.base) = some seed ∧
        (spare = seed.base ∨ spare = seed.target) ∧ NeededBeside required [spare] joins := by
  simp only [solve] at ok
  split at ok
  · cases Except.ok.inj ok
    exact .inl (by simp [NeededBeside])
  · rename_i more
    split at ok
    · rename_i induced
      cases Except.ok.inj ok
      exact .inl fun j mem => .inr (.inl (inducedInside induced j mem))
    · rename_i apart
      split at ok
      · split at ok
        · rename_i path found
          cases Except.ok.inj ok
          obtain ⟨other,first,way⟩ := Option.bind_eq_some_iff.mp found
          have asked : other ∈ required := (mem_filter.mp (mem_of_mem_head? first)).1
          rw [clean,cleanKeeps (pathGrows closed way)]
          refine .inl fun j mem => .inr ?_
          rcases leadsOn (pathLeads way) j mem with last | next
          · exact .inl (last ▸ asked)
          · exact .inr next
        · contradiction
      · rename_i two
        have one : required.length ≠ 1 := by
          intro single
          obtain ⟨v,rfl⟩ := length_eq_one_iff.mp single
          simp [mem_singleton.mp root] at more
        have many : 2 < required.length := by
          have some := length_pos_of_mem root
          omega
        exact (coverNeeded closed ok).imp_right fun found => ⟨apart,many,found⟩

end

theorem joinsNeededBesideSeed {views declared bridges} {g : JoinGraph} (built : g = .ofJoins views declared bridges)
    {base} {required : NameSet} (root : base ∈ required) {joins} (ok : solve g base required = .ok joins) :
    (∀ j ∈ joins, Needed required joins j.target) ∨ induced? g base required = none ∧ 2 < required.length ∧
      ∃ seed spare, ((seeds g required).find? fun j => (g.reachable base).contains j.base) = some seed ∧
        (spare = seed.base ∨ spare = seed.target) ∧ ¬ Needed required joins spare ∧
        ∀ j ∈ joins, j.target ≠ spare → Needed required joins j.target := by
  have closed : g.Closed := built ▸ JoinGraph.ofJoinsClosed views declared bridges
  rcases solvedNeeded closed root ok with all | ⟨apart,many,seed,spare,first,ends,beside⟩
  · exact .inl fun j mem => (all j mem).resolve_left List.not_mem_nil
  · by_cases needed : Needed required joins spare
    · left
      intro j mem
      rcases beside j mem with same | other
      · exact List.mem_singleton.mp same ▸ needed
      · exact other
    · refine .inr ⟨apart,many,seed,spare,first,ends,needed,fun j mem other => ?_⟩
      exact (beside j mem).resolve_left fun same => other (List.mem_singleton.mp same)

def deliveryGraph : JoinGraph :=
  .ofJoins ["carriers","managers","orders","regions","stores"]
    [keyJoin "orders" "carriers" .manyToOne,keyJoin "orders" "stores" .manyToOne,
      keyJoin "stores" "managers" .manyToOne,keyJoin "stores" "regions" .manyToOne] []

theorem deliveryJoins : solve deliveryGraph "orders" ["managers","orders","regions"] = .ok deliveryGraph.joins :=
  seedsSolve (by decide) (by cbv) (by decide) (by cbv : _ = deliveryGraph.joins) (by decide +kernel)

theorem carriersLeftDangling :
    ¬ ∀ views declared bridges base required joins, base ∈ required →
      solve (.ofJoins views declared bridges) base required = .ok joins →
      ∀ j ∈ joins, j.target ∈ required ∨ ∃ k ∈ joins, k.base = j.target ∨ j.target ∈ k.dependencies := by
  intro all
  have unneeded := all _ _ _ _ _ _ (by decide) deliveryJoins (keyJoin "orders" "carriers" .manyToOne) (by decide)
  revert unneeded
  decide

theorem deliveryJoinsNeeded :
    ∃ spare, ¬ Needed ["managers","orders","regions"] deliveryGraph.joins spare ∧
      ∀ j ∈ deliveryGraph.joins, j.target ≠ spare →
        Needed ["managers","orders","regions"] deliveryGraph.joins j.target := by
  rcases joinsNeededBesideSeed rfl (by decide) deliveryJoins with all | ⟨_,_,_,spare,_,_,unneeded,others⟩
  · exact absurd (all (keyJoin "orders" "carriers" .manyToOne) (by decide)) (by unfold Needed; decide)
  · exact ⟨spare,unneeded,others⟩

end SemanticSql.JoinPlan
