import SemanticSql.Proofs.CheapestPath
import SemanticSql.Proofs.JoinCover

/-! When joins can be found. Whatever the joins start from, patching stops only when every required view that
the base reaches is joined, so all attempts leave the same views missing. -/
namespace SemanticSql

open List

namespace NameSet

theorem insertSorted {s : NameSet} (sorted : s.Pairwise (· < ·)) (name : String) :
    (insert name s).Pairwise (· < ·) := by
  induction s with
  | nil => exact pairwise_singleton _ _
  | cons n rest ih =>
    obtain ⟨first,later⟩ := pairwise_cons.mp sorted
    rw [insert]
    split
    · rename_i less
      refine pairwise_cons.mpr ⟨fun m mem => ?_,sorted⟩
      rcases mem_cons.mp mem with rfl | inRest
      · exact less
      · exact String.lt_trans less (first m inRest)
    · split
      · exact sorted
      · rename_i notLess other
        refine pairwise_cons.mpr ⟨fun m mem => ?_,ih later⟩
        rcases mem_insert.mp mem with rfl | inRest
        · by_contra notAfter
          exact other (String.le_antisymm (String.not_lt.mp notAfter) (String.not_lt.mp notLess))
        · exact first m inRest

theorem unionSorted {s : NameSet} (sorted : s.Pairwise (· < ·)) (names : List String) :
    (union s names).Pairwise (· < ·) := by
  unfold union
  induction names generalizing s with
  | nil => exact sorted
  | cons n rest ih => exact ih (insertSorted sorted n)

theorem ofListSorted (names : List String) : (ofList names).Pairwise (· < ·) := unionSorted .nil names

end NameSet

namespace JoinPlan

def unreached (g : JoinGraph) (base : String) (required : NameSet) : NameSet :=
  required.filter fun v => !(g.reachable base).contains v

theorem unreachedNone {g : JoinGraph} {base} {required : NameSet} :
    unreached g base required = [] ↔ ∀ v ∈ required, v ∈ g.reachable base := by
  simp [unreached]

theorem growsKeeps {edges joined joins} {P : String → Prop} (grows : Grows edges joined joins)
    (start : ∀ v ∈ joined, P v) (step : ∀ j ∈ edges, P j.base → P j.target) : ∀ v ∈ joins.map Join.target, P v := by
  induction grows with
  | nil => simp
  | @cons joined j rest edge rooted fresh next ih =>
    have target := step j edge (start _ rooted)
    intro v mem
    rcases mem_cons.mp mem with rfl | later
    · exact target
    · refine ih (fun w known => ?_) v later
      rcases mem_cons.mp known with rfl | old
      · exact target
      · exact start w old

section
variable {g : JoinGraph} {base : String} {required : NameSet}

theorem joinedReachable (closed : g.Closed) (known : g.containsView base) {joins}
    (grows : Grows g.joins [base] joins) {v} (joined : v ∈ joinedViews base joins) : v ∈ g.reachable base := by
  rw [JoinGraph.reachableMember closed known]
  rcases joinedMember.mp joined with rfl | later
  · exact ⟨[],.here v⟩
  · refine growsKeeps (P := fun v => ∃ path, Leads g.joins base path v) grows ?_ ?_ v later
    · intro w root
      exact ⟨[],mem_singleton.mp root ▸ .here w⟩
    · rintro j edge ⟨path,chain⟩
      exact ⟨path ++ [j],leadsExtend chain edge⟩

theorem spansReachable (closed : g.Closed) (known : g.containsView base) {joins}
    (spans : Spans g base required joins) : unreached g base required = [] :=
  unreachedNone.mpr fun v needed =>
    joinedReachable closed known spans.grows (joinedMember.mpr (spans.covers v needed))

theorem cheapestNone {sources target} (nothing : cheapest? g sources target = none) :
    ∀ source ∈ sources, g.path? source target = none := by
  simp only [cheapest?] at nothing
  split at nothing
  · rename_i paths
    intro source mem
    exact filterMap_eq_nil_iff.mp paths source mem
  · contradiction

theorem patchedViews {joins source path target} (grows : Grows g.joins [base] joins)
    (joined : source ∈ joinedViews base joins) (chain : Leads g.joins source path target) :
    target ∈ joinedViews base (clean base (joins ++ path)) ∧
      ∀ v ∈ joinedViews base joins, v ∈ joinedViews base (clean base (joins ++ path)) := by
  have start : source ∈ joins.map Join.target ++ [base] := by
    rw [mem_append,mem_singleton]
    exact (joinedMember.mp joined).symm
  have supported := supportedAppend (growsSupported grows) (leadsSupported chain start)
  have kept : ∀ v ∈ (joins ++ path).map Join.target, v ∈ joinedViews base (clean base (joins ++ path)) := by
    intro v mem
    rcases cleanReaches supported (fun w root => root) v mem with root | later
    · exact joinedMember.mpr (.inl (mem_singleton.mp root))
    · exact joinedMember.mpr (.inr later)
  have old : ∀ v ∈ joinedViews base joins, v ∈ joinedViews base (clean base (joins ++ path)) := by
    intro v mem
    rcases joinedMember.mp mem with root | known
    · exact joinedMember.mpr (.inl root)
    · exact kept v (by rw [map_append]; exact mem_append_left _ known)
  refine ⟨?_,old⟩
  rcases leadsEnd chain with same | passed
  · exact same ▸ old source joined
  · exact kept target (by rw [map_append]; exact mem_append_right _ passed)

theorem fewerMissing {few more : NameSet} {v} (inside : ∀ w ∈ few, w ∈ more) (needed : v ∈ required)
    (absent : v ∉ few) (now : v ∈ more) :
    (required.filter fun w => !more.contains w).length < (required.filter fun w => !few.contains w).length := by
  have parts : (required.filter fun w => !more.contains w) =
      (required.filter fun w => !few.contains w).filter fun w => !more.contains w := by
    rw [filter_filter]
    refine filter_congr fun w _ => ?_
    by_cases known : w ∈ few
    · simp [known,inside w known]
    · simp [known]
  rw [parts,length_filter_lt_length_iff_exists]
  exact ⟨v,mem_filter.mpr ⟨needed,by simpa using absent⟩,by simpa using now⟩

/- Every round joins one missing view at least, so a bound on their number is enough. -/
theorem patchComplete (closed : g.Closed) (known : g.containsView base) (n : Nat) {joins}
    (grows : Grows g.joins [base] joins)
    (enough : (required.filter fun v => !(joinedViews base joins).contains v).length ≤ n) :
    (patch g base required n joins).2 = unreached g base required := by
  induction n generalizing joins with
  | zero =>
    have none := length_eq_zero_iff.mp (Nat.le_zero.mp enough)
    have all : unreached g base required = [] := by
      refine unreachedNone.mpr fun v needed => joinedReachable closed known grows ?_
      simpa using filter_eq_nil_iff.mp none v needed
    rw [patch,all]
    exact none
  | succ n ih =>
    rw [patch]
    split
    · rename_i path found
      obtain ⟨target,missing,cheapest⟩ := exists_of_findSome?_eq_some found
      obtain ⟨source,joined,chain⟩ := cheapestLeads cheapest
      obtain ⟨now,old⟩ := patchedViews grows joined chain
      refine ih (patchedGrows grows joined chain) ?_
      obtain ⟨needed,absent⟩ := mem_filter.mp missing
      have fewer := fewerMissing old needed (by simpa using absent) now
      omega
    · rename_i nothing
      refine filter_congr fun v needed => ?_
      have same : v ∈ joinedViews base joins ↔ v ∈ g.reachable base := by
        constructor
        · exact joinedReachable closed known grows
        · intro reached
          by_contra absent
          have missing : v ∈ required.filter fun v => !(joinedViews base joins).contains v :=
            mem_filter.mpr ⟨needed,by simpa using absent⟩
          have noWay := findSome?_eq_none_iff.mp nothing v missing
          obtain ⟨path,found⟩ := (JoinGraph.pathReaches closed).mpr reached
          simp [cheapestNone noWay base (joinedMember.mpr (.inl rfl))] at found
      simp [same]

theorem patchAll (closed : g.Closed) (known : g.containsView base) {joins} (grows : Grows g.joins [base] joins) :
    (patch g base required required.length joins).2 = unreached g base required :=
  patchComplete closed known _ grows (length_filter_le _ _)

theorem triedFails (closed : g.Closed) (known : g.containsView base) (some : unreached g base required ≠ [])
    {seeds : List Join} (edges : ∀ j ∈ seeds, j ∈ g.joins) {best}
    (before : ∀ fewest ∈ best, fewest = unreached g base required) :
    ∃ last, trySeeds g base required best seeds = .error last ∧
      ∀ fewest ∈ last, fewest = unreached g base required := by
  induction seeds generalizing best with
  | nil => exact ⟨best,rfl,before⟩
  | cons seed rest ih =>
    have later := fun j mem => edges j (mem_cons_of_mem seed mem)
    simp only [trySeeds]
    split
    · exact ih later before
    · rename_i path found
      have missing : (patch g base required required.length (clean base (path ++ [seed]))).2 =
          unreached g base required :=
        patchAll closed known (seededGrows (edges seed mem_cons_self) found)
      rw [missing,if_neg (by simpa using some)]
      refine ih later fun fewest mem => ?_
      cases best with
      | none => exact (Option.some.inj mem).symm
      | some first =>
        have same := before first rfl
        simp only [fewer,same,Nat.lt_irrefl,if_false] at mem
        exact (Option.some.inj mem).symm

theorem coverOutcome (closed : g.Closed) (known : g.containsView base) :
    (unreached g base required = [] → ∃ joins, cover g base required = .ok joins) ∧
      (unreached g base required ≠ [] → cover g base required = .error (noPath base (unreached g base required))) := by
  have missing : (patch g base required required.length []).2 = unreached g base required :=
    patchAll closed known (.nil [base])
  constructor
  · intro none
    simp only [cover,missing,none,isEmpty_nil,if_true]
    split
    · rename_i joins _
      exact ⟨joins,rfl⟩
    · exact ⟨_,rfl⟩
  · intro some
    have edges : ∀ j ∈ seeds g required, j ∈ g.joins := fun j mem => seedEdge mem
    have before : ∀ fewest ∈ (none : Option NameSet), fewest = unreached g base required := by simp
    obtain ⟨last,tried,same⟩ := triedFails closed known some edges before
    simp only [cover,tried,missing,List.isEmpty_iff,some,if_false]
    cases last with
    | none => rfl
    | some fewest => simp [same fewest rfl]

theorem otherView (closed : g.Closed) (known : g.containsView base) {other}
    (missing : required.filter (fun v => v != base) = [other]) :
    unreached g base required = if other ∈ g.reachable base then [] else [other] := by
  have home : base ∈ g.reachable base := (JoinGraph.reachableMember closed known).mpr ⟨[],.here base⟩
  have parts : unreached g base required = (required.filter fun v => v != base).filter
      fun v => !(g.reachable base).contains v := by
    rw [unreached,filter_filter]
    refine filter_congr fun v _ => ?_
    by_cases same : v = base
    · simp [same,home]
    · simp [same]
  rw [parts,missing]
  by_cases reached : other ∈ g.reachable base <;> simp [reached]

theorem twoOthers (two : required.length = 2) (root : base ∈ required) (more : ¬ required.all fun v => v == base) :
    ∃ other, required.filter (fun v => v != base) = [other] := by
  obtain ⟨a,b,rfl⟩ := length_eq_two.mp two
  simp only [mem_cons,not_mem_nil,or_false] at root
  rcases root with rfl | rfl
  · have apart : b ≠ base := fun same => more (by simp [same])
    exact ⟨b,by simp [apart]⟩
  · have apart : a ≠ base := fun same => more (by simp [same])
    exact ⟨a,by simp [apart]⟩

theorem solveOutcome (closed : g.Closed) (known : g.containsView base) (root : base ∈ required) :
    (unreached g base required = [] → ∃ joins, solve g base required = .ok joins) ∧
      (unreached g base required ≠ [] → solve g base required = .error (noPath base (unreached g base required))) := by
  rw [solve]
  split
  · rename_i alone
    have all : unreached g base required = [] := by
      refine unreachedNone.mpr fun v needed => (JoinGraph.reachableMember closed known).mpr ⟨[],?_⟩
      exact beq_iff_eq.mp (all_eq_true.mp alone v needed) ▸ .here v
    exact ⟨fun _ => ⟨[],rfl⟩,fun some => absurd all some⟩
  · rename_i more
    split
    · rename_i joins induced
      exact ⟨fun _ => ⟨joins,rfl⟩,fun some => absurd (spansReachable closed known (inducedSpans induced)) some⟩
    · split
      · rename_i two
        obtain ⟨other,missing⟩ := twoOthers two root more
        have reach : (∃ path, g.path? base other = some path) ↔ other ∈ g.reachable base :=
          JoinGraph.pathReaches closed
        rw [otherView closed known missing]
        simp only [missing,head?_cons,Option.bind_some]
        cases found : g.path? base other with
        | some path => simp [reach.mp ⟨path,found⟩]
        | none =>
          have away : other ∉ g.reachable base := fun mem => by simpa [found] using reach.mpr mem
          simp [away]
      · exact coverOutcome closed known

structure SolvesExactly (g : JoinGraph) (base : String) (required : NameSet) : Prop where
  succeeds : (∃ joins, solve g base required = .ok joins) ↔ ∀ v ∈ required, v ∈ g.reachable base
  fails : ∀ e, solve g base required = .error e → e.isRecoverable ∧
    ∃ missing, e = .join (.noPath base missing) .graph ∧ missing.Pairwise (· < ·) ∧
      ∀ v, v ∈ missing ↔ v ∈ required ∧ v ∉ g.reachable base

theorem solvesExactly (closed : g.Closed) (known : g.containsView base) (root : base ∈ required)
    (sorted : required.Pairwise (· < ·)) : SolvesExactly g base required := by
  obtain ⟨found,failed⟩ := solveOutcome closed known root
  constructor
  · rw [← unreachedNone]
    refine ⟨fun ⟨joins,ok⟩ => ?_,found⟩
    exact spansReachable closed known ((solveSpans ok).2 root)
  · intro e error
    have some : unreached g base required ≠ [] := by
      intro none
      obtain ⟨joins,ok⟩ := found none
      rw [ok] at error
      contradiction
    rw [failed some] at error
    cases Except.error.inj error
    exact ⟨rfl,_,rfl,sorted.filter _,fun v => by simp [unreached]⟩

end
end JoinPlan
end SemanticSql
