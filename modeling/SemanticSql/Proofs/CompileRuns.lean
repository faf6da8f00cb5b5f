import SemanticSql.Context
import Mathlib.Data.List.Forall2

/-! Steps of a compilation that succeed. A step that is made of others succeeds exactly when they do, one after
the other, each from the progress that the one before has left. -/
namespace SemanticSql

open List

variable {α β : Type} {xs : List α} {ys : List β} {x : Except Error α} {f : α → Except Error β}

theorem exceptBind {b} : (x >>= f) = .ok b ↔ ∃ a, x = .ok a ∧ f a = .ok b := by
  cases x with
  | error e => simp [bind,Except.bind]
  | ok a => simp [bind,Except.bind]

theorem exceptMap {f : α → β} {b} : x.map f = .ok b ↔ ∃ a, x = .ok a ∧ f a = b := by
  cases x with
  | error e => simp [Except.map]
  | ok a => simp [Except.map]

theorem exceptSome {a} : x.toOption = some a ↔ x = .ok a := by
  cases x with
  | error e => simp [Except.toOption]
  | ok b => simp [Except.toOption]

theorem exceptMapM : xs.mapM f = .ok ys ↔ List.Forall₂ (fun x y => f x = .ok y) xs ys := by
  induction xs generalizing ys with
  | nil => cases ys <;> simp [pure,Except.pure]
  | cons x xs ih =>
    rw [mapM_cons,exceptBind]
    constructor
    · rintro ⟨y,head,rest⟩
      obtain ⟨tail,later,same⟩ := exceptBind.mp rest
      cases Except.ok.inj same
      exact .cons head (ih.mp later)
    · intro all
      cases all with
      | cons head later => exact ⟨_,head,exceptBind.mpr ⟨_,ih.mpr later,rfl⟩⟩

theorem forallMember {R : α → β → Prop} (all : List.Forall₂ R xs ys) {x} (mem : x ∈ xs) : ∃ y ∈ ys, R x y := by
  induction all with
  | nil => contradiction
  | cons head later ih =>
    rcases mem_cons.mp mem with rfl | rest
    · exact ⟨_,mem_cons_self,head⟩
    · obtain ⟨y,known,related⟩ := ih rest
      exact ⟨y,mem_cons_of_mem _ known,related⟩

theorem forallMap {γ : Type} {R : α → β → Prop} {f : α → γ} {g : β → γ}
    (all : List.Forall₂ R xs ys) (same : ∀ x y, R x y → f x = g y) : xs.map f = ys.map g := by
  induction all with
  | nil => rfl
  | cons head _ ih => rw [map_cons,map_cons,same _ _ head,ih]

theorem forallBetween {γ : Type} {R : α → γ → Prop} {S : γ → β → Prop}
    (all : List.Forall₂ (fun x y => ∃ z, R x z ∧ S z y) xs ys) : ∃ zs, List.Forall₂ R xs zs ∧ List.Forall₂ S zs ys := by
  induction all with
  | nil => exact ⟨[],.nil,.nil⟩
  | cons head _ ih =>
    obtain ⟨z,left,right⟩ := head
    obtain ⟨zs,lefts,rights⟩ := ih
    exact ⟨z :: zs,.cons left lefts,.cons right rights⟩

theorem mapReturns (each : ∀ x ∈ xs, ∃ y, f x = .ok y) : ∃ ys, xs.mapM f = .ok ys := by
  induction xs with
  | nil => exact ⟨[],rfl⟩
  | cons x rest ih =>
    obtain ⟨y,first⟩ := each x mem_cons_self
    obtain ⟨ys,later⟩ := ih fun z mem => each z (mem_cons_of_mem x mem)
    exact ⟨y :: ys,exceptMapM.mpr (.cons first (exceptMapM.mp later))⟩

theorem foldReturns {f : β → α → Except Error β} (start : β)
    (each : ∀ x ∈ xs, ∀ b, ∃ next, f b x = .ok next) : ∃ last, xs.foldlM f start = .ok last := by
  induction xs generalizing start with
  | nil => exact ⟨start,rfl⟩
  | cons x rest ih =>
    obtain ⟨next,first⟩ := each x mem_cons_self start
    obtain ⟨last,later⟩ := ih next fun y mem => each y (mem_cons_of_mem x mem)
    exact ⟨last,by rw [foldlM_cons]; exact exceptBind.mpr ⟨next,first,later⟩⟩

namespace Compile

variable {α β : Type}

def Returns (step : Compile α) (before : Progress) (a : α) (after : Progress) : Prop :=
  step.run before = (.ok a, after)

@[simp]
theorem returnsPure {a b : α} {before after} :
    (pure a : Compile α).Returns before b after ↔ b = a ∧ after = before := by
  constructor
  · intro ok
    cases ok
    exact ⟨rfl,rfl⟩
  · rintro ⟨rfl,rfl⟩
    rfl

variable {step : Compile α} {xs : List α}

theorem runBind {next : α → Compile β} {before} : (step >>= next).run before =
    match step.run before with
    | (.ok a, middle) => (next a).run middle
    | (.error e, middle) => (.error e, middle) := by
  simp only [run,ExceptT.run_bind,StateT.run_bind]
  rcases StateT.run (ExceptT.run step) before with ⟨_ | _,_⟩ <;> rfl

@[simp]
theorem returnsBind {next : α → Compile β} {before b after} :
    (step >>= next).Returns before b after ↔
      ∃ a middle, step.Returns before a middle ∧ (next a).Returns middle b after := by
  rw [Returns,runBind]
  unfold Returns
  rcases step.run before with ⟨_ | a,middle⟩
  · simp
  · simp

theorem bindSame {f g : α → Compile β}
    (same : ∀ before a after, step.Returns before a after → f a = g a) : (step >>= f) = (step >>= g) := by
  funext before
  show (step >>= f).run before = (step >>= g).run before
  rw [runBind,runBind]
  cases result : step.run before with
  | mk outcome after =>
    cases outcome with
    | error e => rfl
    | ok a => exact congrArg (fun step => Compile.run step after) (same before a after result)

theorem mapSame {f g : α → Compile β} (same : ∀ x ∈ xs, f x = g x) : xs.mapM f = xs.mapM g := by
  induction xs with
  | nil => rfl
  | cons x rest ih =>
    obtain ⟨first,later⟩ := forall_mem_cons.mp same
    simp only [mapM_cons,first,ih later]

@[simp]
theorem returnsLift {r : Except Error α} {before a after} :
    Returns (liftM r) before a after ↔ r = .ok a ∧ after = before := by
  cases r with
  | error e =>
    constructor
    · intro ok
      cases ok
    · intro ⟨ok,_⟩
      cases ok
  | ok b =>
    show (pure b : Compile α).Returns before a after ↔ _
    rw [returnsPure]
    constructor
    · rintro ⟨rfl,same⟩
      exact ⟨rfl,same⟩
    · rintro ⟨ok,same⟩
      exact ⟨(Except.ok.inj ok).symm,same⟩

@[simp]
theorem returnsFail {e : Error} {before after} {a : α} : ¬ (fail e : Compile α).Returns before a after := by
  intro ok
  cases ok

theorem returnsMapCons {step : α → Compile β} {x : α} {before ys after} :
    ((x :: xs).mapM step).Returns before ys after ↔ ∃ y middle rest, (step x).Returns before y middle ∧
      (xs.mapM step).Returns middle rest after ∧ ys = y :: rest := by
  simp only [mapM_cons,returnsBind,returnsPure]
  constructor
  · rintro ⟨y,middle,head,rest,_,tail,rfl,rfl⟩
    exact ⟨y,middle,rest,head,tail,rfl⟩
  · rintro ⟨y,middle,rest,head,tail,rfl⟩
    exact ⟨y,middle,head,rest,after,tail,rfl,rfl⟩

theorem returnsEach {step : α → Compile β} {R : α → β → Prop} {before ys after}
    (ok : (xs.mapM step).Returns before ys after)
    (each : ∀ x ∈ xs, ∀ before y after, (step x).Returns before y after → R x y) : List.Forall₂ R xs ys := by
  induction xs generalizing before ys with
  | nil =>
    rw [mapM_nil,returnsPure] at ok
    exact ok.1 ▸ .nil
  | cons x xs ih =>
    obtain ⟨y,middle,rest,head,tail,rfl⟩ := returnsMapCons.mp ok
    exact .cons (each x mem_cons_self _ _ _ head)
      (ih tail fun x mem => each x (mem_cons_of_mem _ mem))

def ran? (step : Compile α) : Option α := (step.run {}).1.toOption

theorem ranReturns {a} (ok : ran? step = some a) : ∃ after, step.Returns {} a after := by
  unfold ran? at ok
  cases result : step.run {} with
  | mk outcome after =>
    cases outcome with
    | error e => simp [result,Except.toOption] at ok
    | ok b =>
      simp only [result,Except.toOption,Option.some.injEq] at ok
      exact ⟨after,ok ▸ result⟩

theorem ranSome (ok : (ran? step).isSome) : ∃ a after, step.Returns {} a after := by
  obtain ⟨a,result⟩ := Option.isSome_iff_exists.mp ok
  exact ⟨a,ranReturns result⟩

theorem returnsRan {a after} (ok : step.Returns {} a after) : ran? step = some a := by
  unfold Returns at ok
  rw [ran?,ok]
  rfl

end Compile
end SemanticSql
