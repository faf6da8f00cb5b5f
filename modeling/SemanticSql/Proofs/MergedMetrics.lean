import Mathlib.Data.List.Perm.Subperm
import Mathlib.Logic.Relation
import SemanticSql.MergedResult
import SemanticSql.Proofs.FieldLookup

/-! What the metrics of a merged result stand for. A merged metric stands for the plain metrics that its references
lead to, and looking them up ends if no reference leads back. -/
namespace SemanticSql

namespace Project

def definitions (p : Project) : List (View × Field) := p.views.flatMap fun v => v.fields.map (Prod.mk v)

theorem definitionsCount (p : Project) : p.definitions.length = p.fieldCount := by
  simp [definitions,fieldCount,List.length_flatMap,List.sum_eq_foldl]

end Project

namespace Session

theorem referencesOfField {s : Session} {u v : FieldUse} (view : u.view = v.view) (field : u.field = v.field) :
    s.referencedFields u = s.referencedFields v := by
  obtain ⟨owner,f,_⟩ := u
  obtain ⟨_,_,_⟩ := v
  cases view
  cases field
  have okBind : ∀ {α β : Type} (a : α) (f : α → Except Error β), (Except.ok a >>= f) = f a := fun _ _ => rfl
  unfold referencedFields
  refine bind_congr fun inSql => bind_congr fun inFilters => bind_congr fun totalled => ?_
  simp only [keptValue,FieldUse.id]
  split
  · rfl
  · rename_i definition _
    cases s.project.fieldFrom _ definition.name with
    | error e => rfl
    | ok dimension =>
      simp only [okBind]
      split
      · rfl
      · cases definition.groupings.mapM (s.project.fieldFrom owner) with
        | error e => rfl
        | ok groupings => rfl

end Session

namespace Scope
variable {s : Scope}
open Relation (ReflTransGen TransGen)

inductive StandsFor (s : Scope) : FieldUse → FieldUse → Prop
  | plain {u} (plain : u.field.isMergedResult = false) : StandsFor s u u
  | merged {u v m references} (merged : u.field.isMergedResult) (refers : s.referencedFields u = .ok references)
      (mem : v ∈ references) (rest : StandsFor s v m) : StandsFor s u m

theorem mergedFromMember {n u found} (ok : s.mergedFrom n u = .ok found) (m : FieldUse) :
    m ∈ found ↔ s.StandsFor u m := by
  induction n generalizing u found with
  | zero => cases ok
  | succ n ih =>
    rw [mergedFrom] at ok
    split at ok
    · rename_i merged
      obtain ⟨references,refers,rest⟩ := exceptBind.mp ok
      obtain ⟨parts,each,same⟩ := exceptBind.mp rest
      cases same
      rw [List.mem_flatten]
      constructor
      · rintro ⟨part,listed,inside⟩
        obtain ⟨v,mem,made⟩ := forallMember (exceptMapM.mp each).flip listed
        exact .merged merged refers mem ((ih made).mp inside)
      · intro stands
        cases stands with
        | plain plain => simp [plain] at merged
        | merged _ again mem stands =>
          cases refers.symm.trans again
          obtain ⟨part,listed,made⟩ := forallMember (exceptMapM.mp each) mem
          exact ⟨part,listed,(ih made).mpr stands⟩
    · rename_i plain
      cases ok
      rw [List.mem_singleton]
      constructor
      · rintro rfl
        exact .plain (Bool.eq_false_iff.mpr plain)
      · intro stands
        cases stands with
        | plain => rfl
        | merged merged => exact absurd merged plain

def Asked (s : Scope) (metrics : List FieldUse) (m : FieldUse) : Prop := ∃ u ∈ metrics, s.StandsFor u m

theorem askedDefined {metrics m} (known : ∀ u ∈ metrics, s.project.Defines u) (asked : s.Asked metrics m) :
    s.project.Defines m := by
  obtain ⟨u,mem,stands⟩ := asked
  have start := known u mem
  clear mem known
  induction stands with
  | plain => exact start
  | merged _ refers mem _ ih => exact ih (Session.referencesDefined start.1 refers _ mem)

def Refers (s : Scope) (u v : FieldUse) : Prop :=
  u.field.isMergedResult ∧ ∃ references, s.referencedFields u = .ok references ∧ v ∈ references

def Visited (s : Scope) (u : FieldUse) (visited : List (View × Field)) : Prop :=
  ∀ d ∈ visited, d ∈ s.project.definitions ∧ ∃ w : FieldUse, (w.view, w.field) = d ∧ TransGen s.Refers w u

theorem visitedFresh {u visited} (before : s.Visited u visited) (merged : u.field.isMergedResult)
    (acyclic : ¬ TransGen s.Refers u u) : (u.view, u.field) ∉ visited := by
  intro again
  obtain ⟨_,w,same,way⟩ := before _ again
  obtain ⟨x,⟨_,found,step,mem⟩,rest⟩ := TransGen.head'_iff.mp way
  rw [Session.referencesOfField (Prod.mk.inj same).1 (Prod.mk.inj same).2] at step
  exact acyclic (TransGen.head' ⟨merged,found,step,mem⟩ rest)

theorem visitedStep {u v visited} (before : s.Visited u visited) (known : s.project.Defines u) (step : s.Refers u v) :
    s.Visited v ((u.view, u.field) :: visited) := by
  intro d inside
  rcases List.mem_cons.mp inside with rfl | old
  · exact ⟨List.mem_flatMap.mpr ⟨u.view,known.1,List.mem_map_of_mem known.2⟩,u,rfl,.single step⟩
  · obtain ⟨defined,w,same,way⟩ := before d old
    exact ⟨defined,w,same,.tail way step⟩

/- The fields on the way are all different, so that the way ends before the fields do. -/
theorem mergedFromReturns {n u} (visited : List (View × Field)) (known : s.project.Defines u)
    (references : ∀ v, ReflTransGen s.Refers u v → v.field.isMergedResult →
      ∃ references, s.referencedFields v = .ok references)
    (acyclic : ∀ v, ReflTransGen s.Refers u v → ¬ TransGen s.Refers v v) (before : s.Visited u visited)
    (distinct : visited.Nodup) (enough : s.project.fieldCount < n + visited.length) :
    ∃ found, s.mergedFrom n u = .ok found := by
  induction n generalizing u visited with
  | zero =>
    have inside := (List.subperm_of_subset distinct fun d mem => (before d mem).1).length_le
    rw [Project.definitionsCount] at inside
    omega
  | succ n ih =>
    rw [mergedFrom]
    split
    · rename_i merged
      obtain ⟨listed,refers⟩ := references u .refl merged
      have fresh := visitedFresh before merged (acyclic u .refl)
      have each : ∀ v ∈ listed, ∃ found, s.mergedFrom n v = .ok found := by
        intro v mem
        have step : s.Refers u v := ⟨merged,listed,refers,mem⟩
        refine ih ((u.view, u.field) :: visited) ?_ ?_ ?_ (visitedStep before known step)
          (List.nodup_cons.mpr ⟨fresh,distinct⟩) ?_
        · exact Session.referencesDefined known.1 refers v mem
        · exact fun w way => references w (.head step way)
        · exact fun w way => acyclic w (.head step way)
        · simp only [List.length_cons]
          omega
      obtain ⟨parts,all⟩ := mapReturns each
      exact ⟨parts.flatten,exceptBind.mpr ⟨listed,refers,exceptBind.mpr ⟨parts,all,rfl⟩⟩⟩
    · exact ⟨[u],rfl⟩

end Scope
end SemanticSql
