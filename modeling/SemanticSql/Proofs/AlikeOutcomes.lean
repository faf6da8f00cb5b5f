import SemanticSql.Filter.Binding
import SemanticSql.Proofs.CompileRuns

/-! Outcomes that are the same but for one thing: a name that several views answer to is reported with the fields it
may mean, and two runs may list them in different orders. -/
namespace SemanticSql

structure RunsAlong (m : Type → Type) [Monad m] (R : (α : Type) → m α → m α → Prop) : Prop where
  refl : ∀ {α : Type} (x : m α), R α x x
  bind : ∀ {α β : Type} {x y : m α} {f g : α → m β}, R α x y → (∀ a, R β (f a) (g a)) → R β (x >>= f) (y >>= g)

namespace RunsAlong
variable {m : Type → Type} [Monad m] {R : (α : Type) → m α → m α → Prop} {α β : Type}

theorem mapM [LawfulMonad m] (along : RunsAlong m R) {f g : α → m β} (each : ∀ a, R β (f a) (g a)) (xs : List α) :
    R (List β) (xs.mapM f) (xs.mapM g) := by
  induction xs with
  | nil => exact along.refl _
  | cons x rest ih =>
    rw [List.mapM_cons,List.mapM_cons]
    exact along.bind (each x) fun _ => along.bind ih fun _ => along.refl _

theorem optionM [LawfulMonad m] (along : RunsAlong m R) {f g : α → m β} (each : ∀ a, R β (f a) (g a)) (o : Option α) :
    R (Option β) (o.mapM f) (o.mapM g) := by
  cases o with
  | none => exact along.refl _
  | some a =>
    rw [Option.mapM_some,Option.mapM_some,map_eq_pure_bind,map_eq_pure_bind]
    exact along.bind (each a) fun _ => along.refl _

theorem foldlM (along : RunsAlong m R) {f g : β → α → m β} (each : ∀ b a, R β (f b a) (g b a)) (xs : List α)
    (start : β) : R β (xs.foldlM f start) (xs.foldlM g start) := by
  induction xs generalizing start with
  | nil => exact along.refl _
  | cons x rest ih =>
    rw [List.foldlM_cons,List.foldlM_cons]
    exact along.bind (each start x) ih

theorem anyM (along : RunsAlong m R) {f g : α → m Bool} (each : ∀ a, R Bool (f a) (g a)) (xs : List α) :
    R Bool (xs.anyM f) (xs.anyM g) := by
  induction xs with
  | nil => exact along.refl _
  | cons x rest ih =>
    refine along.bind (each x) fun found => ?_
    cases found with
    | true => exact along.refl _
    | false => exact ih

end RunsAlong

theorem bothBranches {γ : Type} {R : γ → γ → Prop} {c : Prop} [Decidable c] {x y z w : γ} (yes : R x y) (no : R z w) :
    R (if c then x else z) (if c then y else w) := by
  by_cases h : c
  · rw [if_pos h,if_pos h]
    exact yes
  · rw [if_neg h,if_neg h]
    exact no

inductive Error.Alike : Error → Error → Prop where
  | same (e) : Alike e e
  | listed {name ids others} (order : ids.Perm others) :
      Alike (.query (.ambiguousField name ids)) (.query (.ambiguousField name others))

theorem Error.Alike.recoverable {e f : Error} (alike : e.Alike f) : e.isRecoverable = f.isRecoverable := by
  cases alike <;> rfl

theorem Error.Alike.access {e f : Error} (alike : e.Alike f) : e.isAccess = f.isAccess := by
  cases alike <;> rfl

inductive Alike {α : Type} : Except Error α → Except Error α → Prop where
  | ok (a) : Alike (.ok a) (.ok a)
  | error {e f} (alike : e.Alike f) : Alike (.error e) (.error f)

namespace Alike
variable {α β : Type}

theorem refl (x : Except Error α) : Alike x x := by
  cases x with
  | error e => exact .error (.same e)
  | ok a => exact .ok a

theorem bind {x y : Except Error α} {f g : α → Except Error β} (first : Alike x y) (next : ∀ a, Alike (f a) (g a)) :
    Alike (x >>= f) (y >>= g) := by
  cases first with
  | ok a => exact next a
  | error alike => exact .error alike

theorem lead {x y : Except Error α} {f : α → Except Error β} (first : Alike x y) : Alike (x >>= f) (y >>= f) :=
  bind first fun _ => refl _

theorem along : RunsAlong (Except Error) fun _ => Alike := ⟨refl,bind⟩

theorem map {x y : Except Error α} (alike : Alike x y) (f : α → β) : Alike (x.map f) (y.map f) := by
  cases alike with
  | ok a => exact .ok _
  | error alike => exact .error alike

theorem toOption {x y : Except Error α} (alike : Alike x y) : x.toOption = y.toOption := by
  cases alike <;> rfl

end Alike

namespace Compile
variable {α β : Type}

def Alike (x y : Compile α) : Prop :=
  ∀ before, SemanticSql.Alike (x.run before).1 (y.run before).1 ∧ (x.run before).2 = (y.run before).2

namespace Alike

theorem refl (x : Compile α) : Alike x x := fun _ => ⟨.refl _,rfl⟩

theorem bind {x y : Compile α} {f g : α → Compile β} (first : Alike x y) (next : ∀ a, Alike (f a) (g a)) :
    Alike (x >>= f) (y >>= g) := by
  intro before
  obtain ⟨outcome,left⟩ := first before
  rw [runBind,runBind]
  cases hx : x.run before with
  | mk a after =>
    cases hy : y.run before with
    | mk b afterwards =>
      rw [hx,hy] at outcome left
      cases left
      cases outcome with
      | ok a => exact next a after
      | error alike => exact ⟨.error alike,rfl⟩

theorem lead {x y : Compile α} {f : α → Compile β} (first : Alike x y) : Alike (x >>= f) (y >>= f) :=
  bind first fun _ => refl _

theorem along : RunsAlong Compile fun _ => Alike := ⟨refl,bind⟩

theorem lift {x y : Except Error α} (alike : SemanticSql.Alike x y) : Alike (liftM x : Compile α) (liftM y) := by
  intro before
  cases alike with
  | ok a => exact ⟨.ok a,rfl⟩
  | error alike => exact ⟨.error alike,rfl⟩

theorem failed (e : Error) (f g : α → Compile β) : Alike (fail e >>= f) (fail e >>= g) :=
  fun _ => ⟨.error (.same e),rfl⟩

/- What follows a failed attempt may look at the failure, but not at the order of its list. -/
theorem attempt {x y : Compile α} {f g : Except Error α → Compile β} (first : Alike x y)
    (ok : ∀ a, Alike (f (.ok a)) (g (.ok a))) (error : ∀ d e, d.Alike e → Alike (f (.error d)) (g (.error e))) :
    Alike (x.attempt >>= f) (y.attempt >>= g) := by
  intro before
  obtain ⟨outcome,left⟩ := first before
  have tried : ∀ z : Compile α, z.attempt.run before = (.ok (z.run before).1, (z.run before).2) := fun _ => rfl
  rw [runBind,runBind,tried,tried,left]
  generalize (x.run before).1 = a, (y.run before).1 = b at outcome
  cases outcome with
  | ok a => exact ok a _
  | error alike => exact error _ _ alike _

end Alike
end Compile

namespace Binding
variable {α β : Type}

def Alike (x y : Binding α) : Prop := ∀ tables, Compile.Alike (x.run tables) (y.run tables)

namespace Alike

theorem refl (x : Binding α) : Alike x x := fun _ => .refl _

theorem bind {x y : Binding α} {f g : α → Binding β} (first : Alike x y) (next : ∀ a, Alike (f a) (g a)) :
    Alike (x >>= f) (y >>= g) := by
  intro tables
  rw [StateT.run_bind,StateT.run_bind]
  exact .bind (first tables) fun found => next found.1 found.2

theorem lead {x y : Binding α} {f : α → Binding β} (first : Alike x y) : Alike (x >>= f) (y >>= f) :=
  bind first fun _ => refl _

theorem along : RunsAlong Binding fun _ => Alike := ⟨refl,bind⟩

theorem lift {x y : Compile α} (alike : Compile.Alike x y) : Alike (liftM x : Binding α) (liftM y) :=
  fun _ => .bind alike fun _ => .refl _

theorem except {x y : Except Error α} (alike : SemanticSql.Alike x y) :
    Alike (liftM (liftM x : Compile α) : Binding α) (liftM (liftM y : Compile α)) := lift (.lift alike)

end Alike
end Binding
end SemanticSql
