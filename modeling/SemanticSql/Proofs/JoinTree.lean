import SemanticSql.JoinPlan.Solve
import SemanticSql.Proofs.JoinPath
import Mathlib.Data.List.Nodup
import Mathlib.Data.List.Perm.Basic

/-! The joins of a solved plan grow a tree from the base: every join leaves a view that is joined before and leads to
a view that is not. -/
namespace SemanticSql.JoinPlan

open List

inductive Supported (edges : List Join) : List String → List Join → Prop where
  | nil (joined) : Supported edges joined []
  | cons {joined j rest} (edge : j ∈ edges) (rooted : j.base ∈ joined)
      (next : Supported edges (j.target :: joined) rest) : Supported edges joined (j :: rest)

inductive Grows (edges : List Join) : List String → List Join → Prop where
  | nil (joined) : Grows edges joined []
  | cons {joined j rest} (edge : j ∈ edges) (rooted : j.base ∈ joined) (fresh : j.target ∉ joined)
      (next : Grows edges (j.target :: joined) rest) : Grows edges joined (j :: rest)

theorem supportedMono {edges joined wider joins} (h : Supported edges joined joins)
    (inside : ∀ v ∈ joined, v ∈ wider) : Supported edges wider joins := by
  induction h generalizing wider with
  | nil => exact .nil wider
  | cons edge rooted next ih =>
    refine .cons edge (inside _ rooted) (ih ?_)
    intro v mem
    rcases mem_cons.mp mem with rfl | old
    · exact mem_cons_self
    · exact mem_cons_of_mem _ (inside v old)

theorem supportedAppend {edges joined first second} (h : Supported edges joined first)
    (tail : Supported edges (first.map Join.target ++ joined) second) : Supported edges joined (first ++ second) := by
  induction h with
  | nil => exact tail
  | cons edge rooted next ih =>
    refine .cons edge rooted (ih (supportedMono tail ?_))
    intro v mem
    simp only [map_cons,cons_append,mem_cons,mem_append] at mem ⊢
    rcases mem with same | inFirst | old
    · exact .inr (.inl same)
    · exact .inl inFirst
    · exact .inr (.inr old)

theorem growsSupported {edges joined joins} (h : Grows edges joined joins) : Supported edges joined joins := by
  induction h with
  | nil joined => exact .nil joined
  | cons edge rooted fresh next ih => exact .cons edge rooted ih

theorem leadsSupported {edges source path target joined} (chain : Leads edges source path target)
    (start : source ∈ joined) : Supported edges joined path := by
  induction chain generalizing joined with
  | here => exact .nil joined
  | step edge next ih => exact .cons edge start (ih mem_cons_self)

theorem growsCongr {edges joined same joins} (h : Grows edges joined joins)
    (iff : ∀ v, v ∈ joined ↔ v ∈ same) : Grows edges same joins := by
  induction h generalizing same with
  | nil => exact .nil same
  | cons edge rooted fresh next ih =>
    refine .cons edge ((iff _).mp rooted) (fun mem => fresh ((iff _).mpr mem)) (ih ?_)
    intro v
    simp only [mem_cons,iff v]

theorem growsAppend {edges joined first second} (h : Grows edges joined first)
    (tail : Grows edges (first.map Join.target ++ joined) second) : Grows edges joined (first ++ second) := by
  induction h with
  | nil => exact tail
  | cons edge rooted fresh next ih =>
    refine .cons edge rooted fresh (ih (growsCongr tail ?_))
    intro v
    simp only [map_cons,cons_append,mem_cons,mem_append]
    exact or_left_comm

theorem growsFront {edges joined first second} (h : Grows edges joined (first ++ second)) :
    Grows edges joined first := by
  induction first generalizing joined with
  | nil => exact .nil joined
  | cons j first ih =>
    cases h with
    | cons edge rooted fresh next => exact .cons edge rooted fresh (ih next)

theorem growsBack {edges joined first second} (h : Grows edges joined (first ++ second)) :
    Grows edges (first.map Join.target ++ joined) second := by
  induction first generalizing joined with
  | nil => exact h
  | cons j first ih =>
    cases h with
    | cons edge rooted fresh next =>
      refine growsCongr (ih next) fun v => ?_
      simp only [map_cons,cons_append,mem_cons,mem_append]
      exact or_left_comm

theorem growsAt {edges joined before j after} (h : Grows edges joined (before ++ j :: after)) :
    j ∈ edges ∧ j.base ∈ before.map Join.target ++ joined ∧
      j.target ∉ before.map Join.target ++ joined := by
  induction before generalizing joined with
  | nil =>
    cases h with
    | cons edge rooted fresh next => exact ⟨edge,rooted,fresh⟩
  | cons k before ih =>
    cases h with
    | cons edge rooted fresh next =>
      obtain ⟨edge,rooted,fresh⟩ := ih next
      simp only [map_cons,cons_append,mem_cons,mem_append] at rooted fresh ⊢
      exact ⟨edge,or_left_comm.mp rooted,fun mem => fresh (or_left_comm.mp mem)⟩

theorem growsEdge {edges joined joins j} (h : Grows edges joined joins) (mem : j ∈ joins) : j ∈ edges := by
  obtain ⟨before,after,rfl⟩ := append_of_mem mem
  exact (growsAt h).1

theorem growsFresh {edges joined joins} (h : Grows edges joined joins) : ∀ j ∈ joins, j.target ∉ joined := by
  intro j mem
  obtain ⟨before,after,rfl⟩ := append_of_mem mem
  exact fun old => (growsAt h).2.2 (mem_append_right _ old)

theorem growsTargets {edges joined joins} (h : Grows edges joined joins) : (joins.map Join.target).Nodup := by
  induction h with
  | nil => exact nodup_nil
  | cons edge rooted fresh next ih =>
    refine nodup_cons.mpr ⟨fun mem => ?_,ih⟩
    obtain ⟨k,later,same⟩ := mem_map.mp mem
    exact growsFresh next k later (by simp [same])

theorem growsNotLoop {edges joined joins j} (h : Grows edges joined joins) (mem : j ∈ joins) : j.base ≠ j.target := by
  obtain ⟨before,after,rfl⟩ := append_of_mem mem
  obtain ⟨_,rooted,fresh⟩ := growsAt h
  intro same
  exact fresh (same ▸ rooted)

theorem growsRooted {edges joined joins j} (h : Grows edges joined joins) (mem : j ∈ joins) :
    j.base ∈ joined ∨ ∃ k ∈ joins, k.target = j.base := by
  obtain ⟨before,after,rfl⟩ := append_of_mem mem
  rcases mem_append.mp (growsAt h).2.1 with inBefore | old
  · obtain ⟨k,known,same⟩ := mem_map.mp inBefore
    exact .inr ⟨k,mem_append_left _ known,same⟩
  · exact .inl old

/- Cleaning may drop joins from the middle of a path. -/
theorem cleanGrows {edges joined seen joins} (h : Supported edges joined joins)
    (inside : ∀ v ∈ joined, v ∈ seen) : Grows edges seen (cleanFrom seen joins) := by
  induction h generalizing seen with
  | nil => exact .nil seen
  | @cons joined j rest edge rooted next ih =>
    simp only [cleanFrom]
    split
    · rename_i dropped
      apply ih
      intro v mem
      rcases mem_cons.mp mem with rfl | old
      · rcases Bool.or_eq_true_iff.mp dropped with loop | known
        · exact beq_iff_eq.mp loop ▸ inside _ rooted
        · exact contains_iff_mem.mp known
      · exact inside v old
    · rename_i kept
      have fresh : j.target ∉ seen := by
        intro mem
        exact kept (Bool.or_eq_true_iff.mpr (.inr (contains_iff_mem.mpr mem)))
      refine .cons edge (inside _ rooted) fresh (ih ?_)
      intro v mem
      rcases mem_cons.mp mem with rfl | old
      · exact mem_cons_self
      · exact mem_cons_of_mem _ (inside v old)

theorem cleanReaches {edges joined seen joins} (h : Supported edges joined joins) (inside : ∀ v ∈ joined, v ∈ seen) :
    ∀ v ∈ joins.map Join.target, v ∈ seen ∨ v ∈ (cleanFrom seen joins).map Join.target := by
  induction h generalizing seen with
  | nil => simp
  | @cons joined j rest edge rooted next ih =>
    intro v mem
    simp only [cleanFrom]
    split
    · rename_i dropped
      have known : j.target ∈ seen := by
        rcases Bool.or_eq_true_iff.mp dropped with loop | known
        · exact beq_iff_eq.mp loop ▸ inside _ rooted
        · exact contains_iff_mem.mp known
      rcases mem_cons.mp mem with rfl | later
      · exact .inl known
      · refine ih ?_ v later
        intro w old
        rcases mem_cons.mp old with rfl | old
        · exact known
        · exact inside w old
    · rcases mem_cons.mp mem with rfl | later
      · exact .inr (by simp)
      · have inside : ∀ w ∈ j.target :: joined, w ∈ j.target :: seen := by
          intro w old
          rcases mem_cons.mp old with rfl | old
          · exact mem_cons_self
          · exact mem_cons_of_mem _ (inside w old)
        rcases ih inside v later with old | kept
        · rcases mem_cons.mp old with rfl | old
          · exact .inr (by simp)
          · exact .inl old
        · exact .inr (mem_cons_of_mem _ kept)

theorem cleanKeeps {edges joined joins} (grows : Grows edges joined joins) : cleanFrom joined joins = joins := by
  induction grows with
  | nil => rfl
  | @cons joined j rest edge rooted fresh next ih =>
    have apart : j.base ≠ j.target := fun same => fresh (same ▸ rooted)
    simp [cleanFrom,apart,fresh,ih]

end SemanticSql.JoinPlan
