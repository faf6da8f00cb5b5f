import Mathlib.Data.List.Nodup
import SemanticSql.Proofs.AlikeOutcomes

/-! Projects that list their views in another order. -/
namespace SemanticSql

open List View

def View.namedBefore (a b : View) : Bool := decide (a.name ≤ b.name)

theorem View.namedTrans (a b c : View) (first : a.namedBefore b) (second : b.namedBefore c) : a.namedBefore c := by
  simp only [namedBefore,decide_eq_true_eq] at *
  exact String.le_trans first second

theorem View.namedTotal (a b : View) : (a.namedBefore b || b.namedBefore a) = true := by
  simpa [namedBefore] using String.le_total a.name b.name

structure Reorders (views others : List View) : Prop where
  order : views.Perm others
  distinct : (views.map name).Nodup

namespace Reorders
variable {views others : List View} (h : Reorders views others)
include h

theorem sameView {v w : View} (known : v ∈ views) (also : w ∈ views) (name : v.name = w.name) : v = w :=
  inj_on_of_nodup_map h.distinct known also name

theorem findSame (name : String) : (others.find? fun v => v.name == name) = views.find? fun v => v.name == name := by
  cases found : others.find? fun v => v.name == name with
  | none =>
    refine (find?_eq_none.mpr fun v mem => ?_).symm
    exact find?_eq_none.mp found v (h.order.mem_iff.mp mem)
  | some w =>
    have inOthers := mem_of_find?_eq_some found
    have named : w.name = name := by simpa using find?_some found
    have some : (views.find? fun v => v.name == name).isSome :=
      find?_isSome.mpr ⟨w,h.order.mem_iff.mpr inOthers,by simp [named]⟩
    obtain ⟨v,first⟩ := Option.isSome_iff_exists.mp some
    have same : v.name = name := by simpa using find?_some first
    rw [first,h.sameView (mem_of_find?_eq_some first) (h.order.mem_iff.mpr inOthers) (same.trans named.symm)]

/- Sorting forgets the order: with different names, no two views stand at the same place. -/
theorem sortedSame : others.mergeSort namedBefore = views.mergeSort namedBefore := by
  refine List.Perm.eq_of_pairwise ?_ (pairwise_mergeSort namedTrans namedTotal others)
    (pairwise_mergeSort namedTrans namedTotal views) ?_
  · intro a b inOthers inViews below above
    simp only [namedBefore,decide_eq_true_eq] at below above
    exact h.sameView (h.order.mem_iff.mpr (mem_mergeSort.mp inOthers)) (mem_mergeSort.mp inViews)
      (String.le_antisymm below above)
  · exact (mergeSort_perm others _).trans (h.order.symm.trans (mergeSort_perm views _).symm)

theorem graphSame : JoinGraph.ofViews others = JoinGraph.ofViews views := by
  have sorts (vs : List View) : JoinGraph.ofViews vs =
      JoinGraph.ofJoins ((vs.mergeSort namedBefore).map name)
        (JoinGraph.explicitJoins (vs.mergeSort namedBefore) ++
          JoinGraph.identifierJoins (vs.mergeSort namedBefore))
        (NameSet.ofList (((vs.mergeSort namedBefore).filter hasCompositeKey).map name)) := rfl
  rw [sorts,sorts,h.sortedSame]

end Reorders

namespace Project
variable {p : Project} {views : List View}

def listing (p : Project) (views : List View) : Project := { p with views }

theorem fieldCountSame (h : Reorders p.views views) : (p.listing views).fieldCount = p.fieldCount := by
  have counts := h.order.map fun v => v.fields.length
  exact (counts.foldl_eq' (fun a _ b _ n => Nat.add_right_comm n a b) 0).symm

theorem foundSame (h : Reorders p.views views) (name : String) : (p.listing views).view? name = p.view? name :=
  h.findSame name

theorem viewReordered (h : Reorders p.views views) (name : String) : (p.listing views).view name = p.view name := by
  simp only [view,foundSame h]

theorem fieldReordered (h : Reorders p.views views) (name : String) :
    Alike (p.field name) ((p.listing views).field name) := by
  unfold field
  generalize Text.lower (Text.trim name) = name
  dsimp only
  cases Text.cut? '.' name with
  | some parts =>
    dsimp only
    rw [foundSame h]
    exact .refl _
  | none =>
    dsimp only [listing]
    have order := h.order.filterMap fun view =>
      (view.field? name).map fun found : Field × Option Grain => FieldUse.mk view found.1 found.2
    generalize p.views.filterMap _ = found, views.filterMap _ = others at order ⊢
    have lengths := order.length_eq
    -- None and one are the same in any order; from two on, the order shows in the error.
    rcases found with _ | ⟨u,_ | ⟨v,rest⟩⟩
    · rw [← order.nil_eq]
      exact .refl _
    · rw [← singleton_perm.mp order]
      exact .refl _
    · rcases others with _ | ⟨w,_ | ⟨x,more⟩⟩
      · simp at lengths
      · simp at lengths
      · exact .error (.listed (order.map _))

theorem fieldFromReordered (h : Reorders p.views views) (view : View) (name : String) :
    Alike (p.fieldFrom view name) ((p.listing views).fieldFrom view name) :=
  bothBranches (fieldReordered h name) (.refl _)

theorem canonDateReordered (h : Reorders p.views views) (u : FieldUse) :
    Alike (p.canonDate u) ((p.listing views).canonDate u) := by
  rw [canonDate,canonDate]
  cases u.field.canonDate <|> u.view.defaultDate with
  | none => exact .refl _
  | some name => exact .lead (fieldFromReordered h u.view name)

end Project
end SemanticSql
