import Mathlib.Data.Set.Finite.List
import Mathlib.Logic.Relation
import Mathlib.Order.WellFounded
import SemanticSql.JoinPlan.Solve

/-! The order of joins. A join waits for the joins to the views that it leaves or that its condition reads. Taking the
first join that waits for none of those left, again and again, gives the least order in which no join comes too early,
and gets stuck only if joins wait for each other in a circle. -/
namespace SemanticSql.JoinPlan

open List Relation

def Precedes (joins : List Join) (i k : Nat) : Prop :=
  i ≠ k ∧ ∃ before after, joins[i]? = some before ∧ joins[k]? = some after ∧
    (after.base = before.target ∨ before.target ∈ after.dependencies)

/- The positions in an order in which none comes before one that has to precede it. -/
structure Schedule (joins : List Join) (positions order : List Nat) : Prop where
  complete : order.Perm positions
  ordered : order.Pairwise fun i k => ¬ Precedes joins k i

structure LeastSchedule (joins : List Join) (positions order : List Nat) : Prop extends
    Schedule joins positions order where
  least : ∀ other, Schedule joins positions other → ¬ Lex (· < ·) other order

structure Waiting (joins : List Join) (left : List (Nat × Join)) : Prop where
  sorted : left.Pairwise fun e f => e.1 < f.1
  placed : ∀ e ∈ left, joins[e.1]? = some e.2

variable {joins : List Join} {left : List (Nat × Join)} {out : List Join} {n i : Nat} {j : Join}

theorem readyIff (placed : ∀ e ∈ left, joins[e.1]? = some e.2) (here : joins[i]? = some j) :
    isReady left i j ↔ ∀ e ∈ left, ¬ Precedes joins e.1 i := by
  simp only [isReady,all_eq_true]
  refine forall₂_congr fun e mem => ?_
  simp [Precedes,mustPrecede,placed e mem,here,or_iff_not_imp_left]

theorem waitingRest (waiting : Waiting joins left) : Waiting joins (left.filter fun e => e.1 != i) where
  sorted := waiting.sorted.filter _
  placed e mem := waiting.placed e (mem_of_mem_filter mem)

theorem positionsDistinct (waiting : Waiting joins left) : (left.map Prod.fst).Nodup :=
  (waiting.sorted.map Prod.fst fun _ _ less => less).imp Nat.ne_of_lt

/- The indices tell the joins of a list apart, so taking one out leaves all others. -/
theorem takenPerm {left : List (Nat × Join)} {i j} (distinct : (left.map Prod.fst).Nodup)
    (mem : (i, j) ∈ left) : ((i, j) :: left.filter fun e => e.1 != i).Perm left := by
  obtain ⟨before,after,rfl⟩ := append_of_mem mem
  rw [map_append,map_cons,nodup_append] at distinct
  obtain ⟨_,tail,apart⟩ := distinct
  have keepBefore : (before.filter fun e => e.1 != i) = before := by
    refine filter_eq_self.mpr fun e known => bne_iff_ne.mpr ?_
    exact apart e.1 (mem_map_of_mem known) i mem_cons_self
  have keepAfter : (after.filter fun e => e.1 != i) = after := by
    refine filter_eq_self.mpr fun e known => bne_iff_ne.mpr fun same => ?_
    exact (nodup_cons.mp tail).1 (mem_map.mpr ⟨e,known,same⟩)
  rw [filter_append,filter_cons_of_neg (by simp),keepBefore,keepAfter]
  exact perm_middle.symm

/- The first join that is ready is not behind any other that is. -/
theorem firstReady (waiting : Waiting joins left) (found : left.find? (fun e => isReady left e.1 e.2) = some (i, j))
    {e} (mem : e ∈ left) (ready : isReady left e.1 e.2) : i ≤ e.1 := by
  obtain ⟨_,front,back,rfl,missed⟩ := find?_eq_some_iff_append.mp found
  have behind := (pairwise_append.mp waiting.sorted).2.1
  rcases mem_append.mp mem with before | after
  · have := missed e before
    simp [ready] at this
  · rcases mem_cons.mp after with rfl | later
    · exact Nat.le_refl _
    · exact Nat.le_of_lt ((pairwise_cons.mp behind).1 e later)

theorem headReady {k tail} (waiting : Waiting joins left) (schedule : Schedule joins (left.map Prod.fst) (k :: tail)) :
    ∃ e ∈ left, e.1 = k ∧ isReady left e.1 e.2 := by
  obtain ⟨e,mem,rfl⟩ := mem_map.mp (schedule.complete.mem_iff.mp mem_cons_self)
  refine ⟨e,mem,rfl,(readyIff waiting.placed (waiting.placed e mem)).mpr fun f other precedes => ?_⟩
  have listed := schedule.complete.mem_iff.mpr (mem_map_of_mem other)
  rcases mem_cons.mp listed with same | later
  · exact precedes.1 same
  · exact (pairwise_cons.mp schedule.ordered).1 f.1 later precedes

theorem scheduled (waiting : Waiting joins left) (ok : orderFrom n left = some out) :
    ∃ order, LeastSchedule joins (left.map Prod.fst) order ∧ out = order.filterMap (joins[·]?) := by
  fun_induction orderFrom n left generalizing out with
  | case1 n =>
    cases ok
    exact ⟨[],⟨⟨.nil,.nil⟩,fun other _ less => by cases less⟩,rfl⟩
  | case2 => contradiction
  | case3 => contradiction
  | case4 n left _ i j found ih =>
    obtain ⟨rest,taken,rfl⟩ := Option.map_eq_some_iff.mp ok
    obtain ⟨order,⟨⟨complete,ordered⟩,least⟩,rfl⟩ := ih (waitingRest waiting) taken
    have mem := mem_of_find?_eq_some found
    have here : joins[i]? = some j := waiting.placed (i, j) mem
    have perm := (takenPerm (positionsDistinct waiting) mem).map Prod.fst
    have free := (readyIff waiting.placed here).mp (by simpa using find?_some found)
    refine ⟨i :: order,⟨⟨(complete.cons i).trans perm,pairwise_cons.mpr ⟨fun k listed => ?_,ordered⟩⟩,?_⟩,?_⟩
    · obtain ⟨e,kept,rfl⟩ := mem_map.mp (complete.mem_iff.mp listed)
      exact free e (mem_of_mem_filter kept)
    · intro other schedule less
      cases less with
      | nil => exact absurd (schedule.complete.mem_iff.mpr (mem_map_of_mem mem)) not_mem_nil
      | rel earlier =>
        obtain ⟨e,listed,rfl,ready⟩ := headReady waiting schedule
        exact Nat.not_lt.mpr (firstReady waiting found listed ready) earlier
      | cons later =>
        refine least _ ⟨?_,(pairwise_cons.mp schedule.ordered).2⟩ later
        exact (schedule.complete.trans perm.symm).cons_inv
    · simp [here]

def numbered (joins : List Join) : List (Nat × Join) := joins.zipIdx.map fun e => (e.2, e.1)

theorem allPositions (joins : List Join) : (numbered joins).map Prod.fst = range joins.length := by
  simp [numbered,Function.comp_def,range_eq_range']

theorem allWaiting (joins : List Join) : Waiting joins (numbered joins) := by
  refine ⟨pairwise_map.mp (allPositions joins ▸ pairwise_lt_range),fun e mem => ?_⟩
  obtain ⟨⟨j,i⟩,known,rfl⟩ := mem_map.mp mem
  exact mem_zipIdx_iff_getElem?.mp known

theorem orderScheduled (ok : order? joins = some out) :
    ∃ order, LeastSchedule joins (range joins.length) order ∧ out = order.filterMap (joins[·]?) := by
  have := scheduled (allWaiting joins) ok
  rwa [allPositions] at this

theorem positionsRead (joins : List Join) : (range joins.length).filterMap (joins[·]?) = joins := by
  induction joins with
  | nil => rfl
  | cons j rest ih => simpa [range_succ_eq_map,filterMap_map,Function.comp_def] using ih

theorem sortedOrder (ok : order? joins = some out) :
    out.Perm joins ∧ out.Pairwise fun before after => mustPrecede after before = false := by
  obtain ⟨order,least,rfl⟩ := orderScheduled ok
  have distinct : order.Nodup := least.complete.nodup_iff.mpr nodup_range
  refine ⟨(least.complete.filterMap _).trans (.of_eq (positionsRead joins)),pairwise_filterMap.mpr ?_⟩
  refine (least.ordered.and distinct).imp fun ⟨free,apart⟩ before first after second => ?_
  simpa [Precedes,mustPrecede,first,second,Ne.symm apart] using free

end SemanticSql.JoinPlan
