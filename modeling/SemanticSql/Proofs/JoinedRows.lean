import SemanticSql.Proofs.JoinTree
import Mathlib.Logic.Function.Basic

/-! The rows of joined views. A database gives every view its rows and every join the pairs that match; views are
joined from the left in the order of the plan, so a joined row shows for each view one of its rows or none. -/
namespace SemanticSql

open List

structure Database (Row : Type) where
  rows : String → List Row
  distinct : ∀ view, (rows view).Nodup
  matched : Join → Row → Row → Bool

abbrev JoinedRow (Row : Type) := String → Option Row

namespace Database
variable {Row : Type} (db : Database Row)

def partners (j : Join) (r : JoinedRow Row) : List Row := match r j.base with
  | none => []
  | some x => (db.rows j.target).filter (db.matched j x)

def leftJoin (j : Join) (r : JoinedRow Row) : List (JoinedRow Row) := match db.partners j r with
  | [] => [Function.update r j.target none]
  | y :: more => (y :: more).map fun y => Function.update r j.target (some y)

def joinMore (all : List (JoinedRow Row)) (joins : List Join) : List (JoinedRow Row) :=
  joins.foldl (fun all j => all.flatMap (db.leftJoin j)) all

def start (base : String) : List (JoinedRow Row) :=
  (db.rows base).map fun x => Function.update (fun _ => none) base (some x)

def joinAll (base : String) (joins : List Join) : List (JoinedRow Row) := db.joinMore (db.start base) joins

def OneTarget (j : Join) : Prop :=
  ∀ x ∈ db.rows j.base, ∀ y ∈ db.rows j.target, ∀ z ∈ db.rows j.target,
    db.matched j x y → db.matched j x z → y = z

def OneBase (j : Join) : Prop :=
  ∀ y ∈ db.rows j.target, ∀ x ∈ db.rows j.base, ∀ z ∈ db.rows j.base,
    db.matched j x y → db.matched j z y → x = z

def Respects (j : Join) : Prop := match j.relationship with
  | .oneToOne => db.OneTarget j ∧ db.OneBase j
  | .manyToOne => db.OneTarget j
  | .oneToMany => db.OneBase j
  | .manyToMany => True

def OccursOnce (view : String) (all : List (JoinedRow Row)) : Prop :=
  all.Pairwise fun r s => ∀ x, r view = some x → s view ≠ some x

def Shows (joined : List String) (all : List (JoinedRow Row)) : Prop :=
  ∀ r ∈ all, ∀ view x, r view = some x → view ∈ joined ∧ x ∈ db.rows view

variable {db : Database Row}

theorem partnersMember {j r y} (mem : y ∈ db.partners j r) :
    ∃ x, r j.base = some x ∧ y ∈ db.rows j.target ∧ db.matched j x y := by
  unfold partners at mem
  split at mem
  · contradiction
  · rename_i x shown
    obtain ⟨known,pair⟩ := mem_filter.mp mem
    exact ⟨x,shown,known,pair⟩

theorem partnersDistinct (j : Join) (r : JoinedRow Row) : (db.partners j r).Nodup := by
  unfold partners
  split
  · exact nodup_nil
  · exact (db.distinct j.target).filter _

theorem leftJoinMember {j r s} (mem : s ∈ db.leftJoin j r) :
    (∀ view, view ≠ j.target → s view = r view) ∧
      ∀ y, s j.target = some y → y ∈ db.partners j r := by
  unfold leftJoin at mem
  split at mem
  · cases mem_singleton.mp mem
    exact ⟨fun view other => Function.update_of_ne other _ _,by simp⟩
  · rename_i first more found
    obtain ⟨y,known,rfl⟩ := mem_map.mp mem
    refine ⟨fun view other => Function.update_of_ne other _ _,fun z shown => ?_⟩
    have same : y = z := by simpa using shown
    exact found ▸ same ▸ known

theorem leftJoinPairwise {j r} {P : JoinedRow Row → JoinedRow Row → Prop}
    (apart : ∀ y ∈ db.partners j r, ∀ z ∈ db.partners j r, y ≠ z →
      P (Function.update r j.target (some y)) (Function.update r j.target (some z))) :
    (db.leftJoin j r).Pairwise P := by
  unfold leftJoin
  split
  · exact pairwise_singleton P _
  · rename_i first more found
    rw [pairwise_map]
    have distinct := db.partnersDistinct j r
    rw [found] at distinct apart
    exact distinct.imp_of_mem fun known other different => apart _ known _ other different

theorem showsJoin {joined all} (j : Join) (h : db.Shows joined all) :
    db.Shows (j.target :: joined) (all.flatMap (db.leftJoin j)) := by
  intro s mem view x shown
  obtain ⟨r,known,made⟩ := mem_flatMap.mp mem
  obtain ⟨others,target⟩ := leftJoinMember made
  by_cases same : view = j.target
  · subst same
    obtain ⟨_,_,row,_⟩ := partnersMember (target x shown)
    exact ⟨mem_cons_self,row⟩
  · obtain ⟨inside,row⟩ := h r known view x ((others view same).symm.trans shown)
    exact ⟨mem_cons_of_mem _ inside,row⟩

theorem keptOnce {joined all j view} (h : db.Shows joined all) (one : db.OneTarget j) (once : OccursOnce view all)
    (other : view ≠ j.target) : OccursOnce view (all.flatMap (db.leftJoin j)) := by
  refine pairwise_flatMap.mpr ⟨fun r known => leftJoinPairwise ?_,once.imp ?_⟩
  · intro y left z right different
    obtain ⟨x,shown,rowY,pairY⟩ := partnersMember left
    obtain ⟨x',shown',rowZ,pairZ⟩ := partnersMember right
    have same : x' = x := Option.some.inj (shown'.symm.trans shown)
    subst same
    exact absurd (one x' (h r known _ _ shown).2 y rowY z rowZ pairY pairZ) different
  · intro r s apart a left b right x shown
    rw [(leftJoinMember left).1 view other] at shown
    rw [(leftJoinMember right).1 view other]
    exact apart x shown

theorem targetOnce {joined all j} (h : db.Shows joined all) (one : db.OneBase j)
    (once : OccursOnce j.base all) : OccursOnce j.target (all.flatMap (db.leftJoin j)) := by
  have shows := List.Pairwise.and_mem.mp once
  refine pairwise_flatMap.mpr ⟨fun r known => leftJoinPairwise ?_,shows.imp ?_⟩
  · intro y _ z _ different x shown
    simp only [Function.update_self,Option.some.injEq,ne_eq] at shown ⊢
    exact fun same => different (shown.trans same.symm)
  · rintro r s ⟨knownR,knownS,apart⟩ a left b right y shownA shownB
    obtain ⟨x,shownR,row,pair⟩ := partnersMember ((leftJoinMember left).2 y shownA)
    obtain ⟨z,shownS,_,pair'⟩ := partnersMember ((leftJoinMember right).2 y shownB)
    have same := one y row x (h r knownR _ _ shownR).2 z (h s knownS _ _ shownS).2 pair pair'
    exact apart x shownR (same ▸ shownS)

end Database

/- A join to one row keeps what occurs once; a fan-out repeats everything but the rows that it leads to. -/
def grainStep (kept : List String) (j : Join) : List String := match j.relationship with
  | .oneToOne => if j.base ∈ kept then j.target :: kept else kept
  | .manyToOne => kept
  | .oneToMany => if j.base ∈ kept then [j.target] else []
  | .manyToMany => []

theorem grainStepMember {kept j view} (mem : view ∈ grainStep kept j) :
    (view = j.target ∧ j.base ∈ kept ∧ (j.relationship = .oneToOne ∨ j.relationship = .oneToMany)) ∨
      (view ∈ kept ∧ j.relationship.isFanout = false) := by
  cases shape : j.relationship with
  | oneToOne =>
    simp only [grainStep,shape] at mem
    split at mem
    · rename_i rooted
      rcases mem_cons.mp mem with same | old
      · exact .inl ⟨same,rooted,.inl rfl⟩
      · exact .inr ⟨old,rfl⟩
    · exact .inr ⟨mem,rfl⟩
  | manyToOne =>
    simp only [grainStep,shape] at mem
    exact .inr ⟨mem,rfl⟩
  | oneToMany =>
    simp only [grainStep,shape] at mem
    split at mem
    · rename_i rooted
      exact .inl ⟨mem_singleton.mp mem,rooted,.inr rfl⟩
    · contradiction
  | manyToMany =>
    simp only [grainStep,shape] at mem
    contradiction

namespace Database
variable {Row : Type}

variable {db : Database Row}

theorem respectsOneTarget {j} (h : db.Respects j) (narrow : j.relationship.isFanout = false) : db.OneTarget j := by
  unfold Respects at h
  split at h <;> rename_i shape
  · exact h.1
  · exact h
  · simp [shape,Relationship.isFanout] at narrow
  · simp [shape,Relationship.isFanout] at narrow

theorem respectsOneBase {j} (h : db.Respects j)
    (single : j.relationship = .oneToOne ∨ j.relationship = .oneToMany) : db.OneBase j := by
  unfold Respects at h
  split at h <;> rename_i shape
  · exact h.2
  · simp [shape] at single
  · exact h
  · simp [shape] at single

theorem grainStepOnce {joined all kept j} (shows : db.Shows joined all)
    (once : ∀ view ∈ kept, view ∈ joined ∧ OccursOnce view all) (h : db.Respects j) (fresh : j.target ∉ joined) :
    ∀ view ∈ grainStep kept j,
      view ∈ j.target :: joined ∧ OccursOnce view (all.flatMap (db.leftJoin j)) := by
  intro view mem
  rcases grainStepMember mem with ⟨rfl,rooted,single⟩ | ⟨old,narrow⟩
  · exact ⟨mem_cons_self,targetOnce shows (respectsOneBase h single) (once _ rooted).2⟩
  · obtain ⟨inside,before⟩ := once view old
    have other : view ≠ j.target := fun same => fresh (same ▸ inside)
    exact ⟨mem_cons_of_mem _ inside,keptOnce shows (respectsOneTarget h narrow) before other⟩

theorem grainOnce {edges joined joins} (grows : JoinPlan.Grows edges joined joins) (h : ∀ j ∈ joins, db.Respects j)
    {all kept} (shows : db.Shows joined all) (once : ∀ view ∈ kept, view ∈ joined ∧ OccursOnce view all) :
    ∀ view ∈ joins.foldl grainStep kept, OccursOnce view (db.joinMore all joins) := by
  induction grows generalizing all kept with
  | nil => exact fun view mem => (once view mem).2
  | @cons joined j rest edge rooted fresh next ih =>
    have step := grainStepOnce shows once (h j mem_cons_self) fresh
    exact ih (fun k mem => h k (mem_cons_of_mem j mem)) (showsJoin j shows) step

theorem startShows (db : Database Row) (base : String) : db.Shows [base] (db.start base) := by
  intro r mem view x shown
  obtain ⟨y,row,rfl⟩ := mem_map.mp mem
  by_cases same : view = base
  · subst same
    have value : y = x := by simpa using shown
    exact ⟨mem_cons_self,value ▸ row⟩
  · simp [Function.update_of_ne same] at shown

theorem startOnce (db : Database Row) (base : String) : OccursOnce base (db.start base) := by
  refine pairwise_map.mpr ((db.distinct base).imp ?_)
  intro y z different x shown
  simp only [Function.update_self,Option.some.injEq,ne_eq] at shown ⊢
  exact fun same => different (shown.trans same.symm)

theorem joinedOnce {edges base joins} (grows : JoinPlan.Grows edges [base] joins) (h : ∀ j ∈ joins, db.Respects j) :
    ∀ view ∈ joins.foldl grainStep [base], OccursOnce view (db.joinAll base joins) := by
  refine grainOnce grows h (db.startShows base) ?_
  intro view mem
  cases mem_singleton.mp mem
  exact ⟨mem_cons_self,db.startOnce base⟩

end Database
end SemanticSql
