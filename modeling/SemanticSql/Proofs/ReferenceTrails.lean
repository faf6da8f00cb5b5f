import Mathlib.Data.List.Basic
import Mathlib.Logic.Relation
import SemanticSql.Proofs.AskedFields

/-! Trails of references. While a field is expanded, the fields on the way to it are kept, and each of them leads to
the one that was kept after it. -/
namespace SemanticSql

open List Relation

def unseen (ids seen : List String) : Nat := (ids.filter fun id => !seen.contains id).length

theorem unseenMono {ids seen more : List String} (inside : seen ⊆ more) : unseen ids more ≤ unseen ids seen := by
  refine (monotone_filter_right ids fun id other => ?_).length_le
  have new : id ∉ more := by simpa using other
  simpa using fun mem => new (inside mem)

theorem unseenLess {ids seen : List String} {id} (known : id ∈ ids) (new : id ∉ seen) :
    unseen ids (id :: seen) < unseen ids seen := by
  have split : (ids.filter fun x => !(id :: seen).contains x) =
      (ids.filter fun x => !seen.contains x).filter fun x => x != id := by
    rw [filter_filter]
    refine filter_congr fun x _ => ?_
    by_cases same : x = id <;> simp [same]
  rw [unseen,unseen,split]
  exact length_filter_lt_length_iff_exists.mpr ⟨id,mem_filter.mpr ⟨known,by simpa using new⟩,by simp⟩

namespace Project
variable {p : Project}

def fieldIds (p : Project) : List String := p.views.flatMap fun v => v.fields.map fun f => v.name ++ "." ++ f.name

theorem fieldIdsLength : p.fieldIds.length = p.fieldCount := by
  simp [fieldIds,fieldCount,length_flatMap,sum_eq_foldl]

theorem definedId {u} (known : p.Defines u) : u.id ∈ p.fieldIds :=
  mem_flatMap.mpr ⟨u.view,known.1,mem_map.mpr ⟨u.field,known.2,rfl⟩⟩

end Project

namespace Session

/- A circle of followed references: a field leads back to itself, or to a field of the same id. -/
def Circle (s : Session) (root : FieldUse) : Prop :=
  ∃ a b, ReflTransGen s.Follows root a ∧ TransGen s.Follows a b ∧ a.id = b.id

def Skips (s : Session) (symmetric : NameSet) (u v : FieldUse) : Prop :=
  u.field.isFormula ∧ ∃ m, s.Uses u m ∧ m.isMeasure ∧ m.field.type ≠ .number ∧ s.TellsBy symmetric m v

def Links (s : Session) (asked : Option NameSet) (u v : FieldUse) : Prop :=
  s.Uses u v ∨ ∃ symmetric ∈ asked, s.Skips symmetric u v

inductive Trail (s : Session) (asked : Option NameSet) (base : List String) (root : FieldUse) :
    List String → FieldUse → Prop
  | start : Trail s asked base root base root
  | key {symmetric v} (mem : symmetric ∈ asked) (tells : s.TellsBy symmetric root v) : Trail s asked base root base v
  | push {stack u v} (before : Trail s asked base root stack u) (links : s.Links asked u v) :
      Trail s asked base root (u.id :: stack) v

variable {s : Session} {root u v : FieldUse} {stack base : List String} {symmetric : NameSet} {asked : Option NameSet}

theorem followsDefined (known : s.project.Defines u) (follows : s.Follows u v) : s.project.Defines v := by
  have mentioned {template v} (mentions : s.Mentions u template v) : s.project.Defines v := by
    obtain ⟨_,token,_,_,_,found⟩ := mentions
    have ok : s.reference u.view u.id token = .ok v := by simp [reference,found]
    exact referenceDefined known.1 ok
  cases follows with
  | template _ mentions => exact mentioned mentions
  | column _ mentions => exact mentioned mentions
  | distinctKey _ mentions => exact mentioned mentions
  | filter _ found => exact Project.fieldFromDefined known.1 found
  | total _ found => exact Project.fieldFromDefined known.1 found
  | kept keeps mem => exact keptDefined known.1 keeps v mem
  | primaryKey keyed => exact ⟨known.1,mem_of_find?_eq_some keyed⟩

theorem unseenPush {n} (known : s.project.Defines u) (other : u.id ∉ stack)
    (left : unseen s.project.fieldIds stack < n + 1) : unseen s.project.fieldIds (u.id :: stack) < n :=
  Nat.lt_of_lt_of_le (unseenLess (Project.definedId known) other) (Nat.le_of_lt_succ left)

theorem unseenFuel : unseen s.project.fieldIds stack < s.fuel := by
  refine Nat.lt_succ_of_le ?_
  rw [← Project.fieldIdsLength]
  exact length_filter_le _ _

theorem tellsFollows (tells : s.TellsBy symmetric u v) : s.Follows u v := by
  cases tells with
  | distinctKey keyed mentions => exact .distinctKey keyed mentions
  | primaryKey _ _ _ keyed => exact .primaryKey keyed

theorem linksLeads (links : s.Links asked u v) : TransGen s.Follows u v := by
  rcases links with uses | ⟨_,_,_,m,uses,_,_,tells⟩
  · exact .single (usesFollows uses)
  · exact .tail (.single (usesFollows uses)) (tellsFollows tells)

theorem trailLeads (trail : s.Trail asked base root stack u) : ReflTransGen s.Follows root u := by
  induction trail with
  | start => exact .refl
  | key _ tells => exact .single (tellsFollows tells)
  | push _ links ih => exact ih.trans (linksLeads links).to_reflTransGen

theorem trailBack (trail : s.Trail asked [] root stack u) {id} (mem : id ∈ stack) :
    ∃ a, ReflTransGen s.Follows root a ∧ TransGen s.Follows a u ∧ a.id = id := by
  induction trail with
  | start => contradiction
  | key => contradiction
  | @push _ a _ before links ih =>
    rcases mem_cons.mp mem with rfl | later
    · exact ⟨a,trailLeads before,linksLeads links,rfl⟩
    · obtain ⟨a,leads,back,same⟩ := ih later
      exact ⟨a,leads,back.trans (linksLeads links),same⟩

theorem leadsDefined (known : s.project.Defines root) (leads : ReflTransGen s.Follows root u) : s.project.Defines u := by
  induction leads with
  | refl => exact known
  | tail _ follows ih => exact followsDefined ih follows

theorem mentionsStraight {template} : ¬ Circles (s.templateReferences u template) := by
  rw [templateReferences,circlesBind]
  rintro (rendered | ⟨_,_,circles⟩)
  · exact renderStraight rendered
  · obtain ⟨_,_,circles⟩ := circlesMap circles
    exact referenceStraight circles

theorem referencesStraight : ¬ Circles (s.referencedFields u) := by
  simp only [referencedFields,circlesBind]
  rintro (inSql | ⟨_,_,inFilters | ⟨_,_,totalled | ⟨_,_,kept | ⟨_,_,done⟩⟩⟩⟩)
  · obtain ⟨_,_,circles⟩ := circlesMap inSql
    exact mentionsStraight circles
  · obtain ⟨_,_,circles⟩ := circlesMap inFilters
    exact fieldFromStraight circles
  · obtain ⟨_,_,circles⟩ := circlesMap totalled
    exact fieldFromStraight circles
  · exact keptStraight kept
  · exact circlesOk done

theorem mentionsListed {template references v} (ok : s.templateReferences u template = .ok references)
    (mem : v ∈ references) : s.Mentions u template v := by
  obtain ⟨sql,rendered,tokens⟩ := exceptBind.mp ok
  obtain ⟨token,listed,made⟩ := forallMember (exceptMapM.mp tokens).flip mem
  obtain ⟨named,other⟩ := mem_filter.mp listed
  exact ⟨sql,token,rendered,named,by simpa using other,referenceFound made⟩

theorem referencesUsed {references} (ok : s.referencedFields u = .ok references) : ∀ v ∈ references, s.Uses u v := by
  simp only [referencedFields,exceptBind] at ok
  obtain ⟨inSql,templates,inFilters,filters,totalled,measure,kept,window,same⟩ := ok
  cases same
  intro v mem
  simp only [mem_append] at mem
  rcases mem with ((inTemplate | inFilter) | inTotal) | inWindow
  · obtain ⟨found,listed,inside⟩ := mem_flatten.mp inTemplate
    obtain ⟨template,written,made⟩ := forallMember (exceptMapM.mp templates).flip listed
    have mentions := mentionsListed made inside
    simp only [mem_append] at written
    rcases written with (plain | key) | branch
    · exact .template (mem_append_left _ (mem_append.mpr (by simpa using plain))) mentions
    · exact .distinctKey (Option.mem_toList.mp key) mentions
    · exact .template (mem_append_right _ branch) mentions
  · obtain ⟨filter,listed,found⟩ := forallMember (exceptMapM.mp filters).flip inFilter
    exact .filter listed found
  · obtain ⟨name,listed,found⟩ := forallMember (exceptMapM.mp measure).flip inTotal
    exact .total (Option.mem_toList.mp listed) found
  · cases kept with
    | none => contradiction
    | some k => exact .kept window inWindow

end Session
end SemanticSql
