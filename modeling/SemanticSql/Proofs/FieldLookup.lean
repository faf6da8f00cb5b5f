import SemanticSql.Proofs.CompileRuns
import SemanticSql.Session

/-! Fields that a look-up finds. Whatever way a field is named, it is one that a view of the project defines. -/
namespace SemanticSql

theorem View.fieldMember {v : View} {name field grain} (found : v.field? name = some (field, grain)) :
    field ∈ v.fields := by
  obtain ⟨f,mem,read⟩ := List.exists_of_findSome?_eq_some found
  obtain ⟨_,_,same⟩ := Option.map_eq_some_iff.mp read
  cases same
  exact mem

namespace Project

def Defines (p : Project) (u : FieldUse) : Prop := u.view ∈ p.views ∧ u.field ∈ u.view.fields

variable {p : Project}

theorem fieldInDefined {view name u} (known : view ∈ p.views) (ok : p.fieldIn view name = .ok u) : p.Defines u := by
  rw [fieldIn] at ok
  split at ok
  · rename_i found
    cases Except.ok.inj ok
    exact ⟨known,View.fieldMember found⟩
  · contradiction

theorem viewMember {name view} (found : p.view? name = some view) : view ∈ p.views := List.mem_of_find?_eq_some found

theorem fieldDefined {name u} (ok : p.field name = .ok u) : p.Defines u := by
  dsimp only [field] at ok
  generalize Text.lower (Text.trim name) = name at ok
  split at ok
  · split at ok
    · rename_i found
      exact fieldInDefined (viewMember found) ok
    · cases ok
  · split at ok
    · cases ok
    · rename_i only
      cases ok
      obtain ⟨view,known,made⟩ := List.mem_filterMap.mp (only ▸ List.mem_singleton_self u)
      obtain ⟨_,found,rfl⟩ := Option.map_eq_some_iff.mp made
      exact ⟨known,View.fieldMember found⟩
    · cases ok

theorem fieldFromDefined {view name u} (known : view ∈ p.views) (ok : p.fieldFrom view name = .ok u) : p.Defines u := by
  rw [fieldFrom] at ok
  split at ok
  · exact fieldDefined ok
  · exact fieldInDefined known ok

end Project

namespace Session
variable {s : Session}

theorem referenceDefined {view owner token u} (known : view ∈ s.project.views)
    (ok : s.reference view owner token = .ok u) : s.project.Defines u := by
  rw [reference] at ok
  split at ok
  · rename_i found
    cases ok
    unfold reference? at found
    split at found
    · obtain ⟨_,look,rest⟩ := Option.bind_eq_some_iff.mp found
      obtain ⟨_,owner,same⟩ := Option.map_eq_some_iff.mp look
      cases same
      obtain ⟨_,read,same⟩ := Option.bind_eq_some_iff.mp rest
      cases same
      exact ⟨Project.viewMember owner,View.fieldMember read⟩
    · obtain ⟨_,look,rest⟩ := Option.bind_eq_some_iff.mp found
      cases look
      obtain ⟨_,read,same⟩ := Option.bind_eq_some_iff.mp rest
      cases same
      exact ⟨known,View.fieldMember read⟩
  · cases ok

theorem mapDefined {α : Type} {f : α → Except Error FieldUse} {xs : List α} {us} (ok : xs.mapM f = .ok us)
    (each : ∀ x u, f x = .ok u → s.project.Defines u) : ∀ u ∈ us, s.project.Defines u := by
  intro u mem
  obtain ⟨x,_,made⟩ := forallMember (exceptMapM.mp ok).flip mem
  exact each x u made

theorem keptDefined {u k} (known : u.view ∈ s.project.views) (ok : s.keptValue u = .ok (some k)) :
    ∀ v ∈ k.dimension :: k.groupings, s.project.Defines v := by
  rw [keptValue] at ok
  split at ok
  · cases ok
  · obtain ⟨dimension,look,rest⟩ := exceptBind.mp ok
    split at rest
    · cases rest
    · obtain ⟨groupings,each,same⟩ := exceptBind.mp rest
      cases same
      intro v mem
      rcases List.mem_cons.mp mem with rfl | grouping
      · exact Project.fieldFromDefined known look
      · exact mapDefined each (fun _ _ ok => Project.fieldFromDefined known ok) v grouping

theorem referencesDefined {u references} (known : u.view ∈ s.project.views)
    (ok : s.referencedFields u = .ok references) : ∀ v ∈ references, s.project.Defines v := by
  simp only [referencedFields,exceptBind] at ok
  obtain ⟨inSql,templates,inFilters,filters,totalled,measure,kept,window,same⟩ := ok
  cases same
  have looked : ∀ name v, s.project.fieldFrom u.view name = .ok v → s.project.Defines v :=
    fun _ _ ok => Project.fieldFromDefined known ok
  intro v mem
  simp only [List.mem_append] at mem
  rcases mem with ((inTemplate | inFilter) | inTotal) | inWindow
  · obtain ⟨found,listed,inside⟩ := List.mem_flatten.mp inTemplate
    obtain ⟨template,_,made⟩ := forallMember (exceptMapM.mp templates).flip listed
    obtain ⟨text,_,tokens⟩ := exceptBind.mp made
    exact mapDefined tokens (fun _ _ ok => referenceDefined known ok) v inside
  · exact mapDefined filters (fun filter _ ok => looked filter.field _ ok) v inFilter
  · exact mapDefined measure looked v inTotal
  · cases kept with
    | none => contradiction
    | some k => exact keptDefined known window v inWindow

end Session
end SemanticSql
