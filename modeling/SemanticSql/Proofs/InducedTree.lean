import SemanticSql.Proofs.JoinOrder
import SemanticSql.Proofs.JoinTree

/-! The search inside the required views. Breadth-first search grows a tree; sorting permutes its joins so that no
join comes before one that it builds on, and such a permutation of a tree is supported by the base. -/
namespace SemanticSql.JoinPlan

open List

structure Spans (g : JoinGraph) (base : String) (required : NameSet) (joins : List Join) : Prop where
  grows : Grows g.joins [base] joins
  covers : ∀ v ∈ required, v = base ∨ v ∈ joins.map Join.target

structure Searched (g : JoinGraph) (base : String) (visited : List String) (tree : List Join) : Prop where
  grows : Grows g.joins [base] tree
  visits : ∀ v, v ∈ visited ↔ v = base ∨ v ∈ tree.map Join.target

theorem searchedStart (g : JoinGraph) (base : String) : Searched g base [base] [] :=
  ⟨.nil [base],by simp⟩

theorem searchedAdd {g base visited tree j} (h : Searched g base visited tree) (edge : j ∈ g.joins)
    (start : j.base ∈ visited) (fresh : j.target ∉ visited) : Searched g base (j.target :: visited) (tree ++ [j]) := by
  have joined : ∀ v, v ∈ tree.map Join.target ++ [base] ↔ v ∈ visited := by
    intro v
    rw [h.visits,mem_append,mem_singleton,or_comm]
  constructor
  · refine growsAppend h.grows (.cons edge ((joined _).mpr start) (fun mem => fresh ((joined _).mp mem)) ?_)
    exact .nil _
  · intro v
    simp only [map_append,map_cons,map_nil,mem_cons,mem_append,
      not_mem_nil,or_false,h.visits v]
    constructor
    · rintro (same | root | old)
      · exact .inr (.inr same)
      · exact .inl root
      · exact .inr (.inl old)
    · rintro (root | old | same)
      · exact .inr (.inl root)
      · exact .inr (.inr old)
      · exact .inl same

theorem searchedFold {g base tree} {required : NameSet} (leaving : List Join) {visited found}
    (h : Searched g base visited (tree ++ found)) (starts : ∀ j ∈ leaving, j ∈ g.joins ∧ j.base ∈ visited)
    {acc} (ok : leaving.foldl
      (fun (acc : List String × List Join) j =>
        if required.contains j.target && !acc.1.contains j.target then (j.target :: acc.1, acc.2 ++ [j])
        else acc)
      (visited, found) = acc) :
    Searched g base acc.1 (tree ++ acc.2) := by
  induction leaving generalizing visited found with
  | nil => exact ok ▸ h
  | cons j rest ih =>
    rw [foldl_cons] at ok
    split at ok
    · rename_i taken
      have fresh : j.target ∉ visited := by
        have absent := (Bool.and_eq_true_iff.mp taken).2
        simpa using absent
      obtain ⟨edge,start⟩ := starts j mem_cons_self
      have next := searchedAdd h edge start fresh
      rw [append_assoc] at next
      refine ih next (fun k mem => ?_) ok
      obtain ⟨edge,start⟩ := starts k (mem_cons_of_mem j mem)
      exact ⟨edge,mem_cons_of_mem _ start⟩
    · exact ih h (fun k mem => starts k (mem_cons_of_mem j mem)) ok

theorem searchGrows {g base} {required : NameSet} (n : Nat) {queue visited tree} (h : Searched g base visited tree)
    (queued : ∀ v ∈ queue, v ∈ visited) : Grows g.joins [base] (searchTree g required n queue visited tree) := by
  induction n generalizing queue visited tree with
  | zero => exact h.grows
  | succ n ih =>
    cases queue with
    | nil => exact h.grows
    | cons view queue =>
      rw [searchTree]
      generalize outcome : List.foldl _ (visited, ([] : List Join)) (g.outgoing view) = acc
      have starts : ∀ j ∈ g.outgoing view, j ∈ g.joins ∧ j.base ∈ visited := by
        intro j leaving
        obtain ⟨edge,start⟩ := mem_filter.mp (mem_mergeSort.mp leaving)
        exact ⟨edge,beq_iff_eq.mp start ▸ queued view mem_cons_self⟩
      have next : Searched g base acc.1 (tree ++ acc.2) :=
        searchedFold (g.outgoing view) (by simpa using h) starts outcome
      refine ih next ?_
      intro v mem
      rw [next.visits,map_append,mem_append]
      rcases mem_append.mp mem with old | found
      · rcases (h.visits v).mp (queued v (mem_cons_of_mem view old)) with root | known
        · exact .inl root
        · exact .inr (.inl known)
      · exact .inr (.inr found)

/- Induction on the joins that are still to come; the order rules out that a join leaves the target of one of them. -/
theorem orderedSupported {edges base tree} (grown : Grows edges [base] tree) (placed : List Join) {rest}
    (perm : (placed ++ rest).Perm tree) (ordered : rest.Pairwise fun before after => mustPrecede after before = false) :
    Supported edges (placed.map Join.target ++ [base]) rest := by
  induction rest generalizing placed with
  | nil => exact .nil _
  | cons j rest ih =>
    obtain ⟨head,tail⟩ := pairwise_cons.mp ordered
    have mem : j ∈ tree := perm.mem_iff.mp (by simp)
    have rooted : j.base ∈ placed.map Join.target ++ [base] := by
      rcases growsRooted grown mem with root | ⟨k,known,same⟩
      · exact mem_append_right _ root
      · rcases mem_append.mp (perm.mem_iff.mpr known) with before | after
        · exact mem_append_left _ (same ▸ mem_map_of_mem before)
        · rcases mem_cons.mp after with rfl | later
          · exact absurd same.symm (growsNotLoop grown mem)
          · have free := head k later
            simp [mustPrecede,same] at free
    refine .cons (growsEdge grown mem) rooted (supportedMono (ih (placed ++ [j]) ?_ tail) ?_)
    · simpa using perm
    · intro v old
      simp only [map_append,map_cons,map_nil,append_assoc,mem_append,
        mem_cons,not_mem_nil,or_false] at old ⊢
      exact or_left_comm.mp old

theorem sortedSupported {edges base tree out} (grown : Grows edges [base] tree) (ok : order? tree = some out) :
    out.Perm tree ∧ Supported edges [base] out := by
  obtain ⟨perm,ordered⟩ := sortedOrder ok
  exact ⟨perm,orderedSupported grown [] perm ordered⟩

theorem searchedGrows (g base required) :
    Grows g.joins [base] (searchTree g required (required.length + 1) [base] [base] []) :=
  searchGrows _ (searchedStart g base) (fun _ mem => mem)

theorem inducedSpans {g base required joins} (ok : induced? g base required = some joins) :
    Spans g base required joins := by
  simp only [induced?] at ok
  split at ok
  · rename_i reached
    obtain ⟨out,sorted,rfl⟩ := Option.map_eq_some_iff.mp ok
    obtain ⟨perm,supported⟩ := sortedSupported (searchedGrows g base required) sorted
    refine ⟨cleanGrows supported (fun v mem => mem),fun v needed => ?_⟩
    have visited := all_eq_true.mp (Bool.and_eq_true_iff.mp reached).1 v needed
    rcases mem_cons.mp (contains_iff_mem.mp visited) with root | known
    · exact .inl root
    · have placed := (perm.map Join.target).mem_iff.mpr known
      rcases cleanReaches supported (fun v mem => mem) v placed with root | kept
      · exact .inl (mem_singleton.mp root)
      · exact .inr kept
  · contradiction

end SemanticSql.JoinPlan
