import SemanticSql.Proofs.JoinTree

/-! The functional key of a grown list of joins. The root path of a join is the chain that leads to it, and the
fan-outs of a path are the targets of its joins from one to many; the key is the last of a longest list of them. -/
namespace SemanticSql.FunctionalKey
open List JoinPlan

/- `earlier` runs backwards, so the induction peels off the join that came last. -/
theorem rootPathLeads {edges base j} {earlier : List Join} (grows : Grows edges [base] earlier.reverse)
    (rooted : j.base = base ∨ j.base ∈ earlier.map Join.target) :
    ∃ front, rootPath base j earlier = front ++ [j] ∧ Leads earlier base front j.base := by
  induction earlier generalizing j with
  | nil =>
    have first : j.base = base := by simpa using rooted
    exact ⟨[],rfl,first ▸ .here j.base⟩
  | cons k earlier ih =>
    rw [reverse_cons] at grows
    by_cases first : j.base = base
    · exact ⟨[],by simp [rootPath,first],first ▸ .here j.base⟩
    · by_cases parent : k.target = j.base
      · have rootedK : k.base = base ∨ k.base ∈ earlier.map Join.target := by
          have known := (growsAt grows).2.1
          simp only [map_reverse,mem_append,mem_reverse,mem_singleton] at known
          exact known.symm
        obtain ⟨front,path,chain⟩ := ih (growsFront grows) rootedK
        refine ⟨front ++ [k],by simp [rootPath,first,parent,path],?_⟩
        exact parent ▸ leadsExtend (leadsMono chain fun e mem => mem_cons_of_mem k mem) mem_cons_self
      · have rootedJ : j.base = base ∨ j.base ∈ earlier.map Join.target := by
          rcases rooted with same | known
          · exact .inl same
          · rcases mem_cons.mp known with same | later
            · exact absurd same.symm parent
            · exact .inr later
        obtain ⟨front,path,chain⟩ := ih (growsFront grows) rootedJ
        refine ⟨front,by simp [rootPath,first,parent,path],?_⟩
        exact leadsMono chain fun e mem => mem_cons_of_mem k mem

theorem rootPathsAt (base : String) (earlier before : List Join) (j : Join) (after : List Join) :
    rootPath base j (before.reverse ++ earlier) ∈ rootPaths base earlier (before ++ j :: after) := by
  induction before generalizing earlier with
  | nil => exact mem_cons_self
  | cons k before ih =>
    have later := ih (k :: earlier)
    rw [reverse_cons,append_assoc,singleton_append]
    exact mem_cons_of_mem _ later

theorem rootPathsSource {base earlier joins path} (mem : path ∈ rootPaths base earlier joins) :
    ∃ before j after, joins = before ++ j :: after ∧ path = rootPath base j (before.reverse ++ earlier) := by
  induction joins generalizing earlier with
  | nil => contradiction
  | cons k rest ih =>
    rcases mem_cons.mp mem with rfl | later
    · exact ⟨[],k,rest,rfl,rfl⟩
    · obtain ⟨before,j,after,rfl,rfl⟩ := ih later
      exact ⟨k :: before,j,after,rfl,by simp⟩

theorem chainAt {edges base before j after} (grows : Grows edges [base] (before ++ j :: after)) :
    ∃ front, rootPath base j before.reverse = front ++ [j] ∧ Leads before base front j.base := by
  have rooted := (growsAt grows).2.1
  rw [mem_append,mem_singleton,← mem_reverse,← map_reverse] at rooted
  obtain ⟨front,path,chain⟩ := rootPathLeads (by simpa using growsFront grows) rooted.symm
  exact ⟨front,path,leadsMono chain fun e mem => mem_reverse.mp mem⟩

theorem pathChain {edges base joins path} (grows : Grows edges [base] joins) (mem : path ∈ rootPaths base [] joins) :
    ∃ front j, path = front ++ [j] ∧ j ∈ joins ∧ Leads joins base front j.base := by
  obtain ⟨before,j,after,rfl,rfl⟩ := rootPathsSource mem
  obtain ⟨front,path,chain⟩ := chainAt grows
  refine ⟨front,j,by simpa using path,by simp,leadsMono chain fun e known => ?_⟩
  exact mem_append_left _ known

theorem joinPath {edges base before j after} (grows : Grows edges [base] (before ++ j :: after)) :
    ∃ front, front ++ [j] ∈ rootPaths base [] (before ++ j :: after) ∧ Leads before base front j.base := by
  obtain ⟨front,path,chain⟩ := chainAt grows
  have known := rootPathsAt base [] before j after
  rw [append_nil,path] at known
  exact ⟨front,known,chain⟩

theorem fanoutsOf {previous path found} (ok : fanouts? previous path = some found) :
    found = (path.filter fun j => j.relationship == .oneToMany).map Join.target := by
  induction path generalizing previous found with
  | nil => exact (Option.some.inj ok).symm
  | cons j rest ih =>
    simp only [fanouts?,bind,Option.bind_eq_some_iff] at ok
    obtain ⟨others,tail,last⟩ := ok
    have same := ih tail
    split at last
    · rename_i many
      split at last
      · contradiction
      · cases Option.some.inj last
        simp [many,same]
    · rename_i other
      cases Option.some.inj last
      simp [other,same]

theorem collectedIff {α β : Type} {f : α → Option β} {xs : List α} {ys} :
    xs.mapM f = some ys ↔ xs.map f = ys.map some := by
  induction xs generalizing ys with
  | nil => cases ys <;> simp
  | cons x xs ih => cases ys <;> simp [ih,Option.bind_eq_some_iff]

theorem longestMaximal (first : List String) (rest : List (List String)) :
    longest (first :: rest) = (first :: rest).maxOn length (cons_ne_nil first rest) := by
  induction rest generalizing first with
  | nil => exact List.maxOn_singleton.symm
  | cons s rest ih =>
    rw [List.maxOn_cons_cons,← ih,maxOn_eq_if,longest,longest,foldl_cons]
    simp only [← Nat.not_le,ite_not]

theorem longestMember {sequences : List (List String)} {s} (mem : s ∈ sequences) :
    longest sequences ∈ sequences ∧ s.length ≤ (longest sequences).length := by
  cases sequences with
  | nil => contradiction
  | cons first rest =>
    rw [longestMaximal]
    exact ⟨List.maxOn_mem,List.le_apply_maxOn_of_mem mem⟩

theorem grainSource {base joins grain} (ok : FunctionalKey.of base joins = .view grain) :
    (∀ j ∈ joins, j.relationship ≠ .manyToMany) ∧
      ∃ sequences, (rootPaths base [] joins).mapM (fanouts? none) = some sequences ∧
        grain = (longest sequences).getLast?.getD base := by
  unfold FunctionalKey.of at ok
  split at ok
  · contradiction
  · rename_i narrow
    refine ⟨fun j mem shape => narrow (any_eq_true.mpr ⟨j,mem,beq_iff_eq.mpr shape⟩),?_⟩
    split at ok
    · contradiction
    · rename_i sequences collected
      simp only at ok
      split at ok
      · exact ⟨sequences,collected,(FunctionalKey.view.inj ok).symm⟩
      · contradiction

theorem sequenceSource {edges base joins sequences} (grows : Grows edges [base] joins)
    (ok : (rootPaths base [] joins).mapM (fanouts? none) = some sequences) :
    ∀ s ∈ sequences, ∀ v ∈ s, ∃ f ∈ joins, f.relationship = .oneToMany ∧ f.target = v := by
  intro s mem v inside
  obtain ⟨path,known,value⟩ := mem_map.mp (collectedIff.mp ok ▸ mem_map_of_mem mem)
  obtain ⟨front,j,rfl,last,chain⟩ := pathChain grows known
  rw [fanoutsOf value] at inside
  obtain ⟨f,kept,same⟩ := mem_map.mp inside
  obtain ⟨member,many⟩ := mem_filter.mp kept
  refine ⟨f,?_,beq_iff_eq.mp many,same⟩
  rcases mem_append.mp member with before | final
  · exact leadsEdges chain f before
  · exact mem_singleton.mp final ▸ last

theorem grainWithoutFanout {edges base joins grain} (grows : Grows edges [base] joins)
    (ok : FunctionalKey.of base joins = .view grain) (none : ∀ j ∈ joins, j.relationship ≠ .oneToMany) :
    grain = base := by
  obtain ⟨_,sequences,collected,rfl⟩ := grainSource ok
  cases best : (longest sequences).getLast? with
  | none => rfl
  | some v =>
    exfalso
    have inside := mem_of_getLast? best
    have member : longest sequences ∈ sequences := by
      cases sequences with
      | nil => contradiction
      | cons s rest => exact (longestMember mem_cons_self).1
    obtain ⟨f,known,many,_⟩ := sequenceSource grows collected _ member v inside
    exact none f known many

theorem grainOfFanout {edges base joins grain f} (grows : Grows edges [base] joins)
    (ok : FunctionalKey.of base joins = .view grain) (mem : f ∈ joins) (many : f.relationship = .oneToMany)
    (only : ∀ j ∈ joins, j.relationship = .oneToMany → j = f) : grain = f.target := by
  obtain ⟨_,sequences,collected,rfl⟩ := grainSource ok
  obtain ⟨before,after,rfl⟩ := append_of_mem mem
  obtain ⟨front,path,_⟩ := joinPath grows
  obtain ⟨s,known,value⟩ := mem_map.mp (collectedIff.mp collected ▸ mem_map_of_mem path)
  obtain ⟨member,bound⟩ := longestMember known
  have positive : 0 < s.length := by
    rw [fanoutsOf value.symm]
    simp [many]
  cases best : (longest sequences).getLast? with
  | none =>
    have empty := getLast?_eq_none_iff.mp best
    rw [empty] at bound
    exact absurd bound (Nat.not_le_of_lt positive)
  | some v =>
    obtain ⟨k,inside,manyK,rfl⟩ := sequenceSource grows collected _ member v (mem_of_getLast? best)
    rw [only k inside manyK]
    rfl

end SemanticSql.FunctionalKey
