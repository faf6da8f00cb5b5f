import Mathlib.Data.List.Nodup
import SemanticSql.Project.Validation
import SemanticSql.Proofs.CompileRuns
import SemanticSql.Proofs.SortedDict

/-! References that fields declare. In a project that passes its checks no two views go by one name, no two fields of a
view do, and what fields declare to refer to never runs in a circle. -/
namespace SemanticSql

open List

namespace Dict
variable {α : Type} {d : Dict α}

theorem fillSorted (sorted : d.Sorted) (entries : List (String × α)) :
    Sorted (entries.foldl (fun d e => insert e.1 e.2 d) d) := by
  induction entries generalizing d with
  | nil => exact sorted
  | cons e rest ih => exact ih (insertSorted sorted e.1 e.2)

theorem ofListSorted (entries : List (String × α)) : (ofList entries).Sorted := fillSorted List.Pairwise.nil entries

variable {entries : List (String × α)} {key : String}

theorem fillMember (sorted : d.Sorted) {e}
    (mem : e ∈ entries.foldl (fun d e => insert e.1 e.2 d) d) : e ∈ d ∨ e ∈ entries := by
  induction entries generalizing d with
  | nil => exact .inl mem
  | cons first rest ih =>
    rcases ih (insertSorted sorted first.1 first.2) mem with here | later
    · rcases (insertMember sorted).mp here with rfl | ⟨_,old⟩
      · exact .inr mem_cons_self
      · exact .inl old
    · exact .inr (mem_cons_of_mem first later)

theorem ofListMember {e} (mem : e ∈ ofList entries) : e ∈ entries :=
  (fillMember List.Pairwise.nil mem).resolve_left not_mem_nil

theorem fillOther (other : ∀ e ∈ entries, e.1 ≠ key) :
    get? (entries.foldl (fun d e => insert e.1 e.2 d) d) key = d.get? key := by
  induction entries generalizing d with
  | nil => rfl
  | cons first rest ih =>
    obtain ⟨here,later⟩ := forall_mem_cons.mp other
    rw [foldl_cons,ih later,get?_insert_ne (Ne.symm here)]

theorem fillGet {value : α} (mem : (key, value) ∈ entries) (only : ∀ e ∈ entries, e.1 = key → e.2 = value) :
    get? (entries.foldl (fun d e => insert e.1 e.2 d) d) key = some value := by
  induction entries generalizing d with
  | nil => contradiction
  | cons first rest ih =>
    obtain ⟨here,later⟩ := forall_mem_cons.mp only
    by_cases again : ∃ e ∈ rest, e.1 = key
    · obtain ⟨e,inside,rfl⟩ := again
      exact ih (later e inside rfl ▸ inside) later
    · have other : ∀ e ∈ rest, e.1 ≠ key := fun e inside same => again ⟨e,inside,same⟩
      have same : first = (key, value) := by
        rcases mem_cons.mp mem with same | inside
        · exact same.symm
        · exact absurd rfl (other _ inside)
      rw [foldl_cons,fillOther other,same,get?_insert_self]

theorem fillKnown (known : key ∈ entries.map Prod.fst ∨ (d.get? key).isSome) :
    (get? (entries.foldl (fun d e => insert e.1 e.2 d) d) key).isSome := by
  induction entries generalizing d with
  | nil => exact known.resolve_left not_mem_nil
  | cons e rest ih =>
    refine ih ?_
    by_cases same : key = e.1
    · exact .inr (by rw [same,get?_insert_self]; rfl)
    · rw [get?_insert_ne same]
      exact known.imp_left fun mem => (mem_cons.mp mem).resolve_left same

theorem ofListGet {value : α} (mem : (key, value) ∈ entries)
    (only : ∀ e ∈ entries, e.1 = key → e.2 = value) : (ofList entries).get? key = some value := fillGet mem only

end Dict

namespace Dependency
variable {views : List View}

def Names (views : List View) (a b : String) : Prop := ∃ references, (all views).get? a = some references ∧ b ∈ references

theorem settledGrounded {references : Dict NameSet} (sorted : references.Sorted) {n settled}
    (grounded : ∀ a ∈ settled, Acc (fun b a => ∃ named, references.get? a = some named ∧ b ∈ named) a) :
    ∀ a ∈ settle references n settled, Acc (fun b a => ∃ named, references.get? a = some named ∧ b ∈ named) a := by
  induction n generalizing settled with
  | zero => exact grounded
  | succ n ih =>
    simp only [settle]
    split
    · exact grounded
    · refine ih fun a mem => ?_
      obtain ⟨e,listed,rfl⟩ := mem_map.mp mem
      obtain ⟨inside,all⟩ := mem_filter.mp listed
      refine Acc.intro e.1 fun b => ?_
      rintro ⟨named,found,mem⟩
      have same : some e.2 = some named := ((Dict.getMember sorted).mpr inside).symm.trans found
      cases Option.some.inj same
      exact grounded b (contains_iff_mem.mp (all_eq_true.mp all b mem))

theorem namesWellFounded (acyclic : cyclic? views = none) : WellFounded fun b a => Names views a b := by
  refine ⟨fun a => ?_⟩
  cases found : (all views).get? a with
  | none =>
    refine Acc.intro a fun b => ?_
    rintro ⟨_,some,_⟩
    rw [found] at some
    contradiction
  | some references =>
    have entry : (a, references) ∈ all views := (Dict.getMember (Dict.ofListSorted _)).mp found
    have declares : a ∈ (declared views).map Prod.fst := mem_map.mpr ⟨_,Dict.ofListMember entry,rfl⟩
    have settled : a ∈ settle (all views) (all views).length [] := by
      simpa using find?_eq_none.mp acyclic a declares
    exact settledGrounded (Dict.ofListSorted _) (forall_mem_nil _) a settled

end Dependency

namespace Project
variable {p : Project}

variable {α : Type} {items : List α}

theorem firstCauseNone {test : α → Option ConfigError} (ok : firstCause test items = .ok ()) :
    ∀ item ∈ items, test item = none := by
  unfold firstCause at ok
  split at ok
  · contradiction
  · rename_i none
    exact findSome?_eq_none_iff.mp none

theorem earlierApart {key : α → String} {earlier : List α}
    (each : ∀ e ∈ withEarlier earlier items, ∀ a ∈ e.1, key a ≠ key e.2) :
    items.Pairwise (fun a b => key a ≠ key b) ∧ ∀ a ∈ earlier, ∀ b ∈ items, key a ≠ key b := by
  induction items generalizing earlier with
  | nil => exact ⟨List.Pairwise.nil,fun _ _ => forall_mem_nil _⟩
  | cons first rest ih =>
    obtain ⟨here,later⟩ := forall_mem_cons.mp each
    obtain ⟨apart,before⟩ := ih later
    obtain ⟨own,others⟩ := forall_mem_cons.mp before
    exact ⟨pairwise_cons.mpr ⟨own,apart⟩,fun a mem => forall_mem_cons.mpr ⟨here a mem,others a mem⟩⟩

structure Valid (p : Project) : Prop where
  views : ∀ v ∈ p.views, ∀ w ∈ p.views, v.name = w.name → v = w
  fields : ∀ v ∈ p.views, ∀ f ∈ v.fields, ∀ g ∈ v.fields, f.name = g.name → f = g
  grounded : WellFounded fun b a => Dependency.Names p.views a b

theorem apartEqual {key : α → String} (apart : items.Pairwise fun a b => key a ≠ key b) :
    ∀ a ∈ items, ∀ b ∈ items, key a = key b → a = b := by
  have distinct : (items.map key).Nodup := pairwise_map.mpr apart
  exact fun a mem b other same => inj_on_of_nodup_map distinct mem other same

theorem earlierCovers {earlier : List α} {a} (mem : a ∈ items) : ∃ before, (before, a) ∈ withEarlier earlier items := by
  induction items generalizing earlier with
  | nil => contradiction
  | cons first rest ih =>
    rcases mem_cons.mp mem with rfl | later
    · exact ⟨earlier,mem_cons_self⟩
    · obtain ⟨before,listed⟩ := ih later
      exact ⟨before,mem_cons_of_mem _ listed⟩

theorem fieldPasses {view earlier field} (none : fieldCause view earlier field = none) :
    ∀ f ∈ earlier, f.name ≠ field.name := by
  intro f mem same
  rw [fieldCause] at none
  split at none
  · cases none
  · split at none
    · cases none
    · rename_i other
      exact other (any_eq_true.mpr ⟨f,mem,by simp [same]⟩)

theorem viewPasses {earlier view} (none : p.viewCause earlier view = none) :
    (∀ v ∈ earlier, v.name ≠ view.name) ∧ view.fields.Pairwise fun f g => f.name ≠ g.name := by
  unfold viewCause at none
  split at none
  · contradiction
  · rename_i other
    split at none
    · contradiction
    · split at none
      · contradiction
      · rename_i fields
        refine ⟨fun v mem same => other (any_eq_true.mpr ⟨v,mem,by simp [same]⟩),?_⟩
        suffices each : ∀ e ∈ withEarlier [] view.fields, ∀ f ∈ e.1, f.name ≠ e.2.name from (earlierApart each).1
        intro e mem f before same
        exact fieldPasses (findSome?_eq_none_iff.mp fields e mem) f before same

theorem validated (ok : p.validate = .ok ()) : p.Valid := by
  simp only [validate,exceptBind] at ok
  obtain ⟨_,ofViews,_,_,_,_,ok⟩ := ok
  have passes : ∀ e ∈ withEarlier [] p.views, p.viewCause e.1 e.2 = none := firstCauseNone ofViews
  have acyclic : Dependency.cyclic? p.views = none := by
    split at ok
    · contradiction
    · assumption
  refine ⟨apartEqual (earlierApart fun e mem => (viewPasses (passes e mem)).1).1,fun v mem => ?_,
    Dependency.namesWellFounded acyclic⟩
  obtain ⟨before,listed⟩ := earlierCovers mem
  exact apartEqual (viewPasses (passes _ listed)).2

end Project
end SemanticSql
