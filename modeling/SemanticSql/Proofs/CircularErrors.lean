import SemanticSql.Expansion.Aggregate
import SemanticSql.Expansion.Leaves
import SemanticSql.Project.Dependency
import SemanticSql.Proofs.FieldLookup

/-! Failures that report a circle of references. Such a failure is never made up: the field that is reported is on the
way already, by references that were followed one after another. -/
namespace SemanticSql

open Error

def Error.isCircle : Error → Bool
  | .model (.cycle _ _) => true
  | _ => false

def Circles {α : Type} (x : Except Error α) : Prop := ∃ e, x = .error e ∧ e.isCircle

section
variable {α β : Type}

@[simp]
theorem circlesOk {a : α} : ¬ Circles (.ok a : Except Error α) := by
  rintro ⟨_,same,_⟩
  cases same

@[simp]
theorem circlesError {e : Error} : Circles (.error e : Except Error α) ↔ e.isCircle := by
  constructor
  · rintro ⟨_,same,circle⟩
    cases same
    exact circle
  · exact fun circle => ⟨e,rfl,circle⟩

instance (x : Except Error α) : Decidable (Circles x) :=
  match x with
  | .ok _ => isFalse circlesOk
  | .error _ => decidable_of_iff _ circlesError.symm

theorem circlesBind {x : Except Error α} {f : α → Except Error β} :
    Circles (x >>= f) ↔ Circles x ∨ ∃ a, x = .ok a ∧ Circles (f a) := by
  cases x with
  | error e =>
    have failed : (Except.error e >>= f) = .error e := rfl
    simp [failed]
  | ok a =>
    have went : (Except.ok a >>= f) = f a := rfl
    simp [went]

theorem circlesMap {f : α → Except Error β} {xs : List α} (circles : Circles (xs.mapM f)) : ∃ x ∈ xs, Circles (f x) := by
  induction xs with
  | nil => exact absurd circles circlesOk
  | cons x rest ih =>
    rw [List.mapM_cons,circlesBind] at circles
    rcases circles with first | ⟨_,_,later⟩
    · exact ⟨x,List.mem_cons_self,first⟩
    · rcases circlesBind.mp later with later | ⟨_,_,done⟩
      · obtain ⟨y,mem,circles⟩ := ih later
        exact ⟨y,List.mem_cons_of_mem x mem,circles⟩
      · exact absurd done circlesOk

end

namespace Compile
variable {α : Type}

def Circles (step : Compile α) : Prop := ∃ before e after, step.run before = (.error e, after) ∧ e.isCircle

theorem circlesFrom {step : Compile α} {before} (circles : SemanticSql.Circles (step.run before).1) : step.Circles := by
  obtain ⟨e,failed,circle⟩ := circles
  exact ⟨before,e,(step.run before).2,Prod.ext failed rfl,circle⟩

end Compile

theorem renderStraight {attributes sql} : ¬ Circles (Template.render attributes sql) := by
  simp only [Template.render]
  split
  · split <;> simp [isCircle]
  · simp

theorem symmetricStraight {d term value key} : ¬ Circles (Symmetric.render d term value key) := by
  unfold Symmetric.render
  split <;> simp [isCircle]

theorem fieldInStraight {p : Project} {view name} : ¬ Circles (p.fieldIn view name) := by
  unfold Project.fieldIn
  split <;> simp [isCircle,notFound]

theorem fieldFromStraight {p : Project} {view name} : ¬ Circles (p.fieldFrom view name) := by
  have named {name} : ¬ Circles (p.field name) := by
    simp only [Project.field]
    split
    · split
      · exact fieldInStraight
      · simp [isCircle,notFound]
    · split <;> simp [isCircle,notFound]
  unfold Project.fieldFrom
  split
  · exact named
  · exact fieldInStraight

namespace Sql

mutual

theorem constantStraight {d datatype} (v : Value) : ¬ Circles (constant d datatype v) := by
  cases v with
  | list items =>
    rw [constant,circlesBind]
    rintro (inner | ⟨_,_,done⟩)
    · exact constantsStraight items inner
    · exact circlesOk done
  | bool b => cases b <;> simp [constant]
  | _ => simp [constant,isCircle]

theorem constantsStraight {d datatype} (items : List Value) : ¬ Circles (constants d datatype items) := by
  cases items with
  | nil => simp [constants]
  | cons v rest =>
    rw [constants,circlesBind]
    rintro (first | ⟨_,_,later⟩)
    · exact constantStraight v first
    · rcases circlesBind.mp later with later | ⟨_,_,done⟩
      · exact constantsStraight rest later
      · exact circlesOk done

end

end Sql

theorem requiredStraight {p : Predicate} {value} : ¬ Circles (p.required value) := by
  unfold Predicate.required
  split <;> simp [isCircle]

theorem listStraight {d datatype v} : ¬ Circles (Predicate.listConstant d datatype v) := by
  rw [Predicate.listConstant,circlesBind]
  rintro (value | ⟨_,_,done⟩)
  · exact Sql.constantStraight v value
  · split at done <;> exact circlesOk done

theorem predicateStraight {p : Predicate} {d datatype field value} : ¬ Circles (p.sql d datatype field value) := by
  have needs {f : Value → Except Error String} (straight : ∀ v, ¬ Circles (f v)) : ¬ Circles (p.required value >>= f) := by
    rw [circlesBind]
    rintro (missing | ⟨v,_,circles⟩)
    · exact requiredStraight missing
    · exact straight v circles
  have shows {x : Except Error String} {f : String → String} (straight : ¬ Circles x) :
      ¬ Circles (x >>= fun text => .ok (f text)) := by
    rw [circlesBind]
    rintro (circles | ⟨_,_,done⟩)
    · exact straight circles
    · exact circlesOk done
  cases p with
  | compare op => exact needs fun v => shows (Sql.constantStraight v)
  | like => exact needs fun v => shows (Sql.constantStraight v)
  | occurs place anyCase negated =>
    refine needs fun v => ?_
    cases anyCase <;> exact circlesOk
  | isNull negated => cases negated <;> simp [Predicate.sql]
  | oneOf negated => exact needs fun v => shows listStraight
  | isTrue negated => cases negated <;> simp [Predicate.sql]
  | literal => simp [Predicate.sql,isCircle]
  | inQuery negated => simp [Predicate.sql,isCircle]

theorem anchoredStraight {clock text result} (found : Literal.anchored? clock text = some result) : ¬ Circles result := by
  simp only [Literal.anchored?,Option.bind_eq_bind,Option.bind_eq_some_iff] at found
  obtain ⟨⟨anchor,rest⟩,_,time,_,made⟩ := found
  cases anchor with
  | after =>
    cases made
    exact circlesOk
  | before =>
    cases made
    exact circlesOk
  | on =>
    simp only at made
    split at made
    · cases made
      exact circlesOk
    · cases made
      simp [isCircle]

theorem conditionsStraight {clock yesNo literal} : ¬ Circles (Literal.conditions clock yesNo literal) := by
  simp only [Literal.conditions]
  split
  · simp [isCircle]
  · split
    · exact circlesOk
    · split
      · split <;> simp [isCircle]
      · split
        · rename_i found
          exact anchoredStraight found
        · split
          · simp only [Literal.listCondition]
            split
            · exact circlesOk
            · split
              · exact circlesOk
              · simp [Except.map,isCircle]
          · split
            · split <;> simp [isCircle]
            · exact circlesOk

theorem literalStraight {d clock datatype yesNo field literal} :
    ¬ Circles (Literal.sql d clock datatype yesNo field literal) := by
  simp only [Literal.sql,circlesBind]
  rintro (read | ⟨conditions,_,each | ⟨_,_,done⟩⟩)
  · exact conditionsStraight read
  · obtain ⟨_,_,circles⟩ := circlesMap each
    exact predicateStraight circles
  · exact circlesOk done

namespace Session
variable {s : Session} {u : FieldUse}

theorem referenceStraight {view owner token} : ¬ SemanticSql.Circles (s.reference view owner token) := by
  unfold reference
  split <;> simp [isCircle]

theorem keptStraight : ¬ SemanticSql.Circles (s.keptValue u) := by
  unfold keptValue
  split
  · exact circlesOk
  · rw [circlesBind]
    rintro (named | ⟨dimension,_,circles⟩)
    · exact fieldFromStraight named
    · split at circles
      · simp [isCircle] at circles
      · rcases circlesBind.mp circles with groupings | ⟨_,_,done⟩
        · obtain ⟨_,_,circles⟩ := SemanticSql.circlesMap groupings
          exact fieldFromStraight circles
        · exact circlesOk done

def Mentions (s : Session) (u : FieldUse) (template : String) (v : FieldUse) : Prop :=
  ∃ sql token, s.render template = .ok sql ∧ token ∈ Reference.names sql ∧ token ≠ Reference.table ∧
    s.reference? u.view token = some v

inductive Follows (s : Session) (u : FieldUse) : FieldUse → Prop
  | template {template v} (mem : template ∈ u.field.templates) (mentions : s.Mentions u template v) : Follows s u v
  | column {v} (plain : u.field.sql = none) (mentions : s.Mentions u u.template v) : Follows s u v
  | distinctKey {key v} (keyed : u.field.distinctKey = some key) (mentions : s.Mentions u key v) : Follows s u v
  | filter {f v} (mem : f ∈ u.field.filters) (found : s.project.fieldFrom u.view f.field = .ok v) : Follows s u v
  | total {name v} (totals : u.field.measure = some name) (found : s.project.fieldFrom u.view name = .ok v) :
      Follows s u v
  | kept {k v} (keeps : s.keptValue u = .ok (some k)) (mem : v ∈ k.dimension :: k.groupings) : Follows s u v
  | primaryKey {key} (keyed : u.view.primaryKey? = some key) : Follows s u ⟨u.view,key,none⟩

inductive Uses (s : Session) (u : FieldUse) : FieldUse → Prop
  | template {template v} (mem : template ∈ u.field.templates) (mentions : s.Mentions u template v) : Uses s u v
  | column {v} (dimension : u.isMeasure = false) (plain : u.field.sql = none) (mentions : s.Mentions u u.template v) :
      Uses s u v
  | distinctKey {key v} (keyed : u.field.distinctKey = some key) (mentions : s.Mentions u key v) : Uses s u v
  | filter {f v} (mem : f ∈ u.field.filters) (found : s.project.fieldFrom u.view f.field = .ok v) : Uses s u v
  | total {name v} (totals : u.field.measure = some name) (found : s.project.fieldFrom u.view name = .ok v) : Uses s u v
  | kept {k v} (keeps : s.keptValue u = .ok (some k)) (mem : v ∈ k.dimension :: k.groupings) : Uses s u v
  | counted {key} (measure : u.isMeasure) (count : u.field.type = .count) (plain : u.field.sql = none)
      (keyed : u.view.primaryKey? = some key) : Uses s u ⟨u.view,key,none⟩

theorem usesFollows {v} (uses : s.Uses u v) : s.Follows u v := by
  cases uses with
  | template mem mentions => exact .template mem mentions
  | column _ plain mentions => exact .column plain mentions
  | distinctKey keyed mentions => exact .distinctKey keyed mentions
  | filter mem found => exact .filter mem found
  | total totals found => exact .total totals found
  | kept keeps mem => exact .kept keeps mem
  | counted _ _ _ keyed => exact .primaryKey keyed

theorem namesMember {sql token} (mem : Reference.Part.name token ∈ Reference.parts sql) : token ∈ Reference.names sql :=
  List.mem_filterMap.mpr ⟨_,mem,rfl⟩

theorem referenceFound {view owner token v} (ok : s.reference view owner token = .ok v) : s.reference? view token = some v := by
  unfold reference at ok
  split at ok
  · rename_i found
    cases ok
    exact found
  · cases ok

end Session

end SemanticSql
