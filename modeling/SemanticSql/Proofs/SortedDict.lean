import Mathlib.Tactic.ByContra
import SemanticSql.Dict

/-! Dictionaries in order. An entry that is put in keeps the keys sorted, so an entry is found by its key exactly
when it is listed. -/
namespace SemanticSql

open List

namespace Dict
variable {α : Type} {d : Dict α}

def Sorted (d : Dict α) : Prop := d.Pairwise fun a b => a.1 < b.1

theorem keysApart {a b : String × α} (less : a.1 < b.1) : b.1 ≠ a.1 := fun same =>
  String.lt_irrefl _ (same ▸ less)

theorem insertMember (sorted : d.Sorted) {key : String} {value : α} {e} :
    e ∈ insert key value d ↔ e = (key, value) ∨ e.1 ≠ key ∧ e ∈ d := by
  induction d with
  | nil => simp [insert]
  | cons first rest ih =>
    obtain ⟨k,v⟩ := first
    obtain ⟨before,later⟩ := pairwise_cons.mp sorted
    rw [insert]
    split
    · rename_i less
      have apart : ∀ e ∈ (k, v) :: rest, e.1 ≠ key := by
        intro e mem
        rcases mem_cons.mp mem with rfl | inRest
        · exact keysApart (a := (key, v)) less
        · exact keysApart (a := (key, v)) (String.lt_trans less (before e inRest))
      rw [mem_cons]
      exact or_congr_right ⟨fun mem => ⟨apart e mem,mem⟩,And.right⟩
    · split
      · rename_i same
        subst same
        rw [mem_cons,mem_cons]
        refine or_congr_right ⟨fun mem => ⟨keysApart (before e mem),.inr mem⟩,?_⟩
        rintro ⟨other,rfl | mem⟩
        · exact absurd rfl other
        · exact mem
      · rename_i different
        rw [mem_cons,ih later,mem_cons]
        constructor
        · rintro (rfl | rfl | ⟨other,mem⟩)
          · exact .inr ⟨Ne.symm different,.inl rfl⟩
          · exact .inl rfl
          · exact .inr ⟨other,.inr mem⟩
        · rintro (rfl | ⟨other,rfl | mem⟩)
          · exact .inr (.inl rfl)
          · exact .inl rfl
          · exact .inr (.inr ⟨other,mem⟩)

theorem insertSorted (sorted : d.Sorted) (key : String) (value : α) : (insert key value d).Sorted := by
  induction d with
  | nil => exact pairwise_singleton _ _
  | cons first rest ih =>
    obtain ⟨k,v⟩ := first
    obtain ⟨before,later⟩ := pairwise_cons.mp sorted
    rw [insert]
    split
    · rename_i less
      refine pairwise_cons.mpr ⟨fun e mem => ?_,sorted⟩
      rcases mem_cons.mp mem with rfl | inRest
      · exact less
      · exact String.lt_trans less (before e inRest)
    · split
      · rename_i same
        exact pairwise_cons.mpr ⟨fun e mem => same ▸ before e mem,later⟩
      · rename_i notLess different
        refine pairwise_cons.mpr ⟨fun e mem => ?_,ih later⟩
        rcases (insertMember later).mp mem with rfl | ⟨_,inRest⟩
        · by_contra notAfter
          exact different (String.le_antisymm (String.not_lt.mp notAfter) (String.not_lt.mp notLess))
        · exact before e inRest

theorem distinctGet (distinct : d.keys.Nodup) {key value} : (key, value) ∈ d ↔ d.get? key = some value := by
  induction d with
  | nil => simp [get?]
  | cons first rest ih =>
    obtain ⟨k,v⟩ := first
    obtain ⟨fresh,later⟩ := nodup_cons.mp distinct
    by_cases same : k = key
    · subst same
      have apart : (k, value) ∉ rest := fun mem => fresh (mem_map.mpr ⟨_,mem,rfl⟩)
      simp [get?,apart,eq_comm]
    · rw [mem_cons,ih later]
      simp [get?,same,Ne.symm same]

theorem getMember (sorted : d.Sorted) {key : String} {value : α} : d.get? key = some value ↔ (key, value) ∈ d :=
  (distinctGet (pairwise_map.mpr (sorted.imp fun less => (keysApart less).symm))).symm

end Dict
end SemanticSql
