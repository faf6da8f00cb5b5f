import SemanticSql.Proofs.InducedTree
import Mathlib.Data.List.Permutation

/-! Solved plans. Patching puts paths from joined views behind the joins and cleans the whole list, so the
joins grow from the base after every step, whatever seed they started from. -/
namespace SemanticSql.JoinPlan

open List

theorem joinedMember {base v joins} : v ∈ joinedViews base joins ↔ v = base ∨ v ∈ joins.map Join.target := by
  rw [joinedViews,NameSet.mem_ofList,mem_cons]

theorem cheapestMember {best p} {paths : List (List Join)}
    (ok : paths.foldl (fun best p => if pathCost p < pathCost best then p else best) p = best) : best ∈ p :: paths := by
  induction paths generalizing p with
  | nil => exact mem_singleton.mpr ok.symm
  | cons q rest ih =>
    rw [foldl_cons] at ok
    split at ok
    · exact mem_cons_of_mem p (ih ok)
    · rcases mem_cons.mp (ih ok) with rfl | later
      · exact mem_cons_self
      · exact mem_cons_of_mem p (mem_cons_of_mem q later)

theorem cheapestPath {g sources target path} (found : cheapest? g sources target = some path) :
    ∃ source ∈ sources, g.path? source target = some path := by
  simp only [cheapest?] at found
  split at found
  · contradiction
  · rename_i p rest paths
    have member := cheapestMember (Option.some.inj found)
    rw [← paths] at member
    exact mem_filterMap.mp member

theorem cheapestLeads {g sources target path} (found : cheapest? g sources target = some path) :
    ∃ source ∈ sources, Leads g.joins source path target := by
  obtain ⟨source,known,way⟩ := cheapestPath found
  exact ⟨source,known,JoinGraph.pathLeads way⟩

/- One round of patching: the path starts at a joined view, so the longer list is still supported. -/
theorem patchedGrows {g : JoinGraph} {base joins source path target} (h : Grows g.joins [base] joins)
    (joined : source ∈ joinedViews base joins) (chain : Leads g.joins source path target) :
    Grows g.joins [base] (clean base (joins ++ path)) := by
  have start : source ∈ joins.map Join.target ++ [base] := by
    rcases joinedMember.mp joined with root | known
    · exact mem_append_right _ (mem_singleton.mpr root)
    · exact mem_append_left _ known
  exact cleanGrows (supportedAppend (growsSupported h) (leadsSupported chain start)) (fun v mem => mem)

variable {required : NameSet}

theorem patchGrows {g base} (n : Nat) {joins} (h : Grows g.joins [base] joins) :
    Grows g.joins [base] (patch g base required n joins).1 := by
  induction n generalizing joins with
  | zero => exact h
  | succ n ih =>
    rw [patch]
    split
    · rename_i path found
      obtain ⟨target,_,cheapest⟩ := exists_of_findSome?_eq_some found
      obtain ⟨source,joined,chain⟩ := cheapestLeads cheapest
      exact ih (patchedGrows h joined chain)
    · exact h

theorem patchMissing {g base} (n : Nat) (joins) :
    (patch g base required n joins).2 =
      required.filter fun v => !(joinedViews base (patch g base required n joins).1).contains v := by
  induction n generalizing joins with
  | zero => rfl
  | succ n ih =>
    rw [patch]
    split
    · exact ih _
    · rfl

theorem patchSpans {g base required joins} (n : Nat) (h : Grows g.joins [base] joins)
    (none : (patch g base required n joins).2.isEmpty) : Spans g base required (patch g base required n joins).1 := by
  refine ⟨patchGrows n h,fun v needed => ?_⟩
  rw [patchMissing,List.isEmpty_iff,filter_eq_nil_iff] at none
  have reached : v ∈ joinedViews base (patch g base required n joins).1 := by
    simpa using none v needed
  exact joinedMember.mp reached

theorem seededGrows {g : JoinGraph} {base path} {seed : Join} (edge : seed ∈ g.joins)
    (found : g.path? base seed.base = some path) : Grows g.joins [base] (clean base (path ++ [seed])) :=
  cleanGrows (leadsSupported (leadsExtend (JoinGraph.pathLeads found) edge) mem_cons_self)
    (fun _ mem => mem)

theorem triedSpans {g base required best joins} {seeds : List Join} (edges : ∀ j ∈ seeds, j ∈ g.joins)
    (ok : trySeeds g base required best seeds = .ok joins) : Spans g base required joins := by
  induction seeds generalizing best with
  | nil => contradiction
  | cons seed rest ih =>
    have later := fun j mem => edges j (mem_cons_of_mem seed mem)
    simp only [trySeeds] at ok
    split at ok
    · exact ih later ok
    · rename_i path found
      split at ok
      · rename_i none
        cases Except.ok.inj ok
        exact patchSpans _ (seededGrows (edges seed mem_cons_self) found) none
      · exact ih later ok

theorem seedEdge {g j} (mem : j ∈ seeds g required) : j ∈ g.joins := by
  have kept := mem_filter.mp (mem_mergeSort.mp mem)
  exact mem_mergeSort.mp kept.1

theorem coverSpans {g base required joins} (ok : cover g base required = .ok joins) : Spans g base required joins := by
  simp only [cover] at ok
  split at ok
  · rename_i found tried
    cases Except.ok.inj ok
    exact triedSpans (fun j mem => seedEdge mem) tried
  · split at ok
    · rename_i none
      cases Except.ok.inj ok
      exact patchSpans _ (.nil [base]) none
    · split at ok <;> contradiction

theorem pathSpans {g base required other path} (only : ∀ v ∈ required, v = base ∨ v = other)
    (found : g.path? base other = some path) : Spans g base required (clean base path) := by
  have chain := JoinGraph.pathLeads found
  have supported := leadsSupported chain (mem_singleton.mpr rfl)
  refine ⟨cleanGrows supported (fun v mem => mem),fun v needed => ?_⟩
  rcases only v needed with root | rfl
  · exact .inl root
  · rcases leadsEnd chain with root | passed
    · exact .inl root
    · rcases cleanReaches supported (fun v mem => mem) v passed with root | kept
      · exact .inl (mem_singleton.mp root)
      · exact .inr kept

theorem twoViews {base other} (two : required.length = 2) (root : base ∈ required)
    (first : (required.filter fun v => v != base).head? = some other) : ∀ v ∈ required, v = base ∨ v = other := by
  obtain ⟨a,b,rfl⟩ := length_eq_two.mp two
  intro v needed
  by_cases same : v = base
  · exact .inl same
  · right
    have rest : (([a,b] : List String).filter fun v => v != base) = [v] := by
      simp only [mem_cons,not_mem_nil,or_false] at root needed
      rcases root with rfl | rfl <;> rcases needed with rfl | rfl <;> simp_all
    rw [rest] at first
    exact Option.some.inj first

theorem solveSpans {g base required joins} (ok : solve g base required = .ok joins) :
    Grows g.joins [base] joins ∧ (base ∈ required → Spans g base required joins) := by
  simp only [solve] at ok
  split at ok
  · rename_i alone
    cases Except.ok.inj ok
    refine ⟨.nil [base],fun _ => ⟨.nil [base],fun v needed => .inl ?_⟩⟩
    exact beq_iff_eq.mp (all_eq_true.mp alone v needed)
  · split at ok
    · rename_i induced
      cases Except.ok.inj ok
      exact ⟨(inducedSpans induced).grows,fun _ => inducedSpans induced⟩
    · split at ok
      · rename_i two
        split at ok
        · rename_i path found
          cases Except.ok.inj ok
          obtain ⟨other,first,way⟩ := Option.bind_eq_some_iff.mp found
          refine ⟨(pathSpans (fun v mem => .inl (mem_singleton.mp mem)) way).grows,fun root => ?_⟩
          exact pathSpans (twoViews two root first) way
        · contradiction
      · exact ⟨(coverSpans ok).grows,fun _ => coverSpans ok⟩

theorem solvedJoinsFormTree {g base required joins} (root : base ∈ required)
    (ok : solve g base required = .ok joins) :
    (∀ j ∈ joins, j ∈ g.joins) ∧ (∀ j ∈ joins, j.target ≠ base) ∧ (joins.map Join.target).Nodup ∧
      (∀ before j after, joins = before ++ j :: after → j.base = base ∨ j.base ∈ before.map Join.target) ∧
      ∀ v ∈ required, v = base ∨ v ∈ joins.map Join.target := by
  obtain ⟨grows,spans⟩ := solveSpans ok
  refine ⟨fun j mem => growsEdge grows mem,fun j mem same => ?_,growsTargets grows,?_,(spans root).covers⟩
  · exact growsFresh grows j mem (List.mem_singleton.mpr same)
  · rintro before j after rfl
    rcases List.mem_append.mp (growsAt grows).2.1 with known | first
    · exact .inr known
    · exact .inl (List.mem_singleton.mp first)

theorem seedsSolve {g : JoinGraph} {base : String} {required : NameSet} {first joins : List Join}
    (other : (required.all fun v => v == base) = false) (apart : induced? g base required = none)
    (more : required.length ≠ 2) (listed : seeds g required = first)
    (tried : trySeeds g base required none first = .ok joins) : solve g base required = .ok joins := by
  simp [solve,other,apart,more,cover,listed,tried]

def keyJoin (base target : String) (relationship : Relationship) : Join :=
  { base, target, relationship, condition := base ++ "." ++ target ++ "_id=" ++ target ++ ".id" }

def shopGraph : JoinGraph :=
  .ofJoins ["customers","lines","orders","payments"]
    [keyJoin "lines" "orders" .manyToOne,keyJoin "orders" "customers" .manyToOne,
      keyJoin "orders" "payments" .oneToMany] []

theorem shopJoinsFormTree :
    ∃ joins, solve shopGraph "lines" ["customers","lines","payments"] = .ok joins ∧
      joins.map Join.target = ["orders","customers","payments"] ∧ (∀ j ∈ joins, j ∈ shopGraph.joins) ∧
      ∀ v ∈ ["customers","lines","payments"], v = "lines" ∨ v ∈ joins.map Join.target := by
  have ok : solve shopGraph "lines" ["customers","lines","payments"] = .ok shopGraph.joins :=
    seedsSolve (by decide) (by cbv) (by decide) (by cbv : _ = shopGraph.joins) (by decide +kernel)
  obtain ⟨edges,_,_,_,covers⟩ := solvedJoinsFormTree (by decide) ok
  exact ⟨_,ok,rfl,edges,covers⟩

end SemanticSql.JoinPlan
