import SemanticSql.Proofs.ReferenceTrails

/-! Runs of an expander. -/
namespace SemanticSql

open List Session
open Session (cycleError)

structure Expander where
  progress : Progress
  /-- The ids of the fields that are being expanded, the latest first. -/
  inProgress : List String
  /-- The fields that were about to be expanded, each with those that were being expanded then. -/
  met : List (List String × FieldUse) := []

abbrev Work := ExceptT Error (StateM Expander)

namespace Work
variable {α β : Type}

def run (work : Work α) (e : Expander) : Except Error α × Expander := StateT.run (ExceptT.run work) e

def lift (step : Compile α) : Work α := fun e =>
  let ran := step.run e.progress
  (ran.1, { e with progress := ran.2 })

def guarded (u : FieldUse) (inner : Work α) : Work α := fun e =>
  let e := { e with met := (e.inProgress, u) :: e.met }
  if e.inProgress.contains u.id then (.error (cycleError e.inProgress u.id), e)
  else
    let ran := inner.run { e with inProgress := u.id :: e.inProgress }
    (ran.1, { ran.2 with inProgress := ran.2.inProgress.tail })

def overrun (u : FieldUse) : Work α := fun e => (.error (cycleError e.inProgress u.id), e)

structure Accounts (trail : List String → FieldUse → Prop) (met : List (List String × FieldUse)) (r : Except Error α) :
    Prop where
  trail : ∀ m ∈ met, trail m.1 m.2
  again : ∀ m ∈ met, m.2.id ∈ m.1 → r = .error (cycleError m.1 m.2.id)
  circle : Circles r → ∃ m ∈ met, m.2.id ∈ m.1

def Traced (trail : List String → FieldUse → Prop) (stack : List String) (work : Work α) (step : Compile α) : Prop :=
  ∀ before met, ∃ new,
    work.run ⟨before,stack,met⟩ = ((step.run before).1, ⟨(step.run before).2,stack,new ++ met⟩) ∧
      Accounts trail new (step.run before).1

variable {trail : List String → FieldUse → Prop} {stack : List String}

variable {step : Compile α} {work : Work α}

theorem tracedLift (straight : ∀ before, ¬ Circles (step.run before).1) : (lift step).Traced trail stack step := by
  intro before met
  exact ⟨[],rfl,forall_mem_nil _,forall_mem_nil _,fun circles => absurd circles (straight before)⟩

theorem runBind {next : α → Work β} {e} : (work >>= next).run e =
    match work.run e with
    | (.ok a, middle) => (next a).run middle
    | (.error error, middle) => (.error error, middle) := by
  simp only [run,ExceptT.run_bind,StateT.run_bind]
  rcases StateT.run (ExceptT.run work) e with ⟨_ | _,_⟩ <;> rfl

theorem tracedBind {next : α → Work β} {later : α → Compile β} (first : work.Traced trail stack step)
    (rest : ∀ a, (next a).Traced trail stack (later a)) : (work >>= next).Traced trail stack (step >>= later) := by
  intro before met
  obtain ⟨new,ran,accounts⟩ := first before met
  cases outcome : step.run before with
  | mk r middle =>
    rw [outcome] at ran accounts
    rw [runBind,ran,Compile.runBind,outcome]
    cases r with
    | error error =>
      refine ⟨new,rfl,accounts.trail,fun m mem again => ?_,fun circles => ?_⟩
      · cases accounts.again m mem again
        rfl
      · exact accounts.circle (circlesError.mpr (circlesError.mp circles))
    | ok a =>
      obtain ⟨more,ran,account⟩ := rest a middle (new ++ met)
      refine ⟨more ++ new,by simpa using ran,?_,?_,fun circles => ?_⟩
      · exact forall_mem_append.mpr ⟨account.trail,accounts.trail⟩
      · refine forall_mem_append.mpr ⟨account.again,fun m mem again => ?_⟩
        cases accounts.again m mem again
      · obtain ⟨m,mem,again⟩ := account.circle circles
        exact ⟨m,mem_append_left _ mem,again⟩

theorem tracedGuarded {u : FieldUse} (here : trail stack u)
    (inner : u.id ∉ stack → work.Traced trail (u.id :: stack) step) :
    (guarded u work).Traced trail stack (if stack.contains u.id then .fail (cycleError stack u.id) else step) := by
  intro before met
  by_cases again : stack.contains u.id
  · have on : u.id ∈ stack := contains_iff_mem.mp again
    rw [if_pos again]
    refine ⟨[(stack, u)],?_,?_,?_,fun _ => ⟨_,mem_singleton_self _,on⟩⟩
    · show guarded u work _ = _
      rw [guarded,if_pos again]
      rfl
    · exact forall_mem_singleton.mpr here
    · exact forall_mem_singleton.mpr fun _ => rfl
  · have off : u.id ∉ stack := by simpa using again
    rw [if_neg again]
    obtain ⟨new,ran,accounts⟩ := inner off before ((stack, u) :: met)
    refine ⟨new ++ [(stack, u)],?_,?_,?_,fun circles => ?_⟩
    · show guarded u work _ = _
      simp only [guarded,if_neg again,ran]
      simp
    · exact forall_mem_append.mpr ⟨accounts.trail,forall_mem_singleton.mpr here⟩
    · exact forall_mem_append.mpr ⟨accounts.again,forall_mem_singleton.mpr fun on => absurd on off⟩
    · obtain ⟨m,mem,again⟩ := accounts.circle circles
      exact ⟨m,mem_append_left _ mem,again⟩

end Work

namespace Draft
variable {α : Type}

def work (sub : FieldUse → Work String) : Draft α → Work α
  | done r => .lift (liftM r)
  | ask u next => do (next (← sub u)).work sub
  | name _ next => next.work sub
  | warn text next => do
    Work.lift (Compile.warn text)
    next.work sub

theorem liftStraight {r : Except Error α} (straight : ¬ Circles r) (before : Progress) :
    ¬ Circles ((liftM r : Compile α).run before).1 := by
  cases r with
  | ok a => exact circlesOk
  | error e => exact straight

theorem workTraced {trail stack named} {sub : FieldUse → Work String} {step : Expand} {d : Draft α}
    (all : d.Within (fun v => (sub v).Traced trail stack (step v)) named) :
    (d.work sub).Traced trail stack (d.run step) := by
  induction d with
  | done r => exact Work.tracedLift (liftStraight all)
  | ask u next ih => exact Work.tracedBind all.1 fun sql => ih sql (all.2 sql)
  | name view next ih => exact ih all.2
  | warn text next ih => exact Work.tracedBind (Work.tracedLift fun _ => circlesOk) fun _ => ih all

end Draft

namespace Session
variable (s : Session)

def rowWork : Nat → FieldUse → Work String
  | 0, u => .overrun u
  | n + 1, u => do
    match ← Work.lift (Compile.known? (memoKey u)) with
    | some sql => pure sql
    | none => do
      let sql ← .guarded u ((s.rowDraft u).work (rowWork n))
      Work.lift (Compile.remember (memoKey u) sql)
      pure sql

def groupWork (symmetric : NameSet) : Nat → FieldUse → Work String
  | 0, u => .overrun u
  | n + 1, u =>
    if u.field.type = .number then
      match u.field.sql with
      | none => .lift (.fail (.query (.noSql u.id)))
      | some sql => .guarded u ((s.expandDraft u.view u.id sql).work fun r =>
          if r.isMeasure then do return bracketed r (← groupWork symmetric n r)
          else s.rowWork n r)
    else (s.columnDraft symmetric u).work (s.rowWork (n + 1))

def gatherWork {α : Type} (sub : FieldUse → Work α) (pick : List FieldUse → List FieldUse) (join : α → α → α) (start : α)
    (u : FieldUse) : Work α := do
  let references ← .lift (s.referencedFields u)
  (pick references).foldlM (fun all v => do return join all (← sub v)) start

def viewsWork : Nat → FieldUse → Work NameSet
  | 0, u => .overrun u
  | n + 1, u =>
    if u.field.isWindowDimension then pure [u.view.name]
    else .guarded u (s.gatherWork (viewsWork n) (List.filter fun v => !v.sameField u) NameSet.union [u.view.name] u)

def leavesWork : Nat → FieldUse → Work (List FieldUse)
  | 0, u => .overrun u
  | n + 1, u => if !u.field.isFormula then pure [u] else .guarded u (s.gatherWork (leavesWork n) id addUses [] u)

variable {s} {root u : FieldUse} {base stack : List String} {asked : Option NameSet} {n m : Nat}

variable {α : Type}

theorem tracedPure {trail} {a : α} : (pure a : Work α).Traced trail stack (pure a) :=
  @Work.tracedLift α trail stack (pure a) fun _ => circlesOk

theorem failFirst {β : Type} {c : Prop} [Decidable c] {e : Error} {x : Compile α} {f : α → Compile β} :
    (if c then .fail e else x >>= f) = (if c then .fail e else x) >>= f := by
  split <;> rfl

theorem liftGuarded {c : Prop} [Decidable c] {e : Error} {x : Except Error α} :
    (liftM (if c then .error e else x : Except Error α) : Compile α) = if c then .fail e else liftM x := by
  split <;> rfl

theorem liftBind {β : Type} {x : Except Error α} {f : α → Except Error β} :
    (liftM (x >>= f) : Compile β) = liftM x >>= fun a => liftM (f a) := by
  cases x with
  | ok a => rfl
  | error e => rfl

theorem gatherTraced {trail} {sub : FieldUse → Work α} {step : FieldUse → Except Error α}
    {pick : List FieldUse → List FieldUse} {join : α → α → α} {start : α} (picks : ∀ references, pick references ⊆ references)
    (all : ∀ v, s.Uses u v → (sub v).Traced trail stack (liftM (step v))) :
    (s.gatherWork sub pick join start u).Traced trail stack (liftM (do
      let references ← s.referencedFields u
      (pick references).foldlM (fun all v => do .ok (join all (← step v))) start : Except Error α)) := by
  have fold {uses : List FieldUse} {start : α} (each : ∀ v ∈ uses, (sub v).Traced trail stack (liftM (step v))) :
      (uses.foldlM (fun all v => do return join all (← sub v)) start : Work α).Traced trail stack
        (liftM (uses.foldlM (fun all v => do .ok (join all (← step v))) start : Except Error α)) := by
    induction uses generalizing start with
    | nil => exact tracedPure
    | cons v rest ih =>
      obtain ⟨first,later⟩ := forall_mem_cons.mp each
      rw [foldlM_cons,foldlM_cons,liftBind,liftBind]
      exact Work.tracedBind (Work.tracedBind first fun _ => tracedPure) fun _ => ih later
  rw [gatherWork]
  cases listed : s.referencedFields u with
  | error e =>
    have straight : ¬ Circles (.error e : Except Error α) := by
      rw [circlesError,← circlesError,← listed]
      exact referencesStraight
    exact @Work.tracedLift α trail stack (liftM (.error e : Except Error α)) (Draft.liftStraight straight)
  | ok references => exact fold fun v mem => all v (referencesUsed listed v (picks references mem))

section
variable (known : s.project.Defines u) (steps : unseen s.project.fieldIds stack < n)
  (bound : unseen s.project.fieldIds stack < m) (trail : s.Trail asked base root stack u)
include known steps bound trail

/- As many steps as there are fields off the stack are enough, as each step puts one more of them there. -/
theorem stepsTraced (work : Nat → FieldUse → Work α) (run : Nat → List String → FieldUse → Compile α)
    (step : ∀ {n m stack u}, s.Trail asked base root stack u →
      (u.id ∉ stack → ∀ v, s.Uses u v →
        (work n v).Traced (s.Trail asked base root) (u.id :: stack) (run m (u.id :: stack) v)) →
      (work (n + 1) u).Traced (s.Trail asked base root) stack (run (m + 1) stack u)) :
    (work n u).Traced (s.Trail asked base root) stack (run m stack u) := by
  induction n generalizing m stack u with
  | zero => exact absurd steps (Nat.not_lt_zero _)
  | succ n ih =>
    cases m with
    | zero => exact absurd bound (Nat.not_lt_zero _)
    | succ m =>
      exact step trail fun other v uses => ih (followsDefined known (usesFollows uses)) (unseenPush known other steps)
        (unseenPush known other bound) (.push trail (.inl uses))

theorem rowTraced : (s.rowWork n u).Traced (s.Trail asked base root) stack (s.rowSqlFrom m stack u) := by
  refine stepsTraced known steps bound trail s.rowWork s.rowSqlFrom fun trail deeper => ?_
  refine Work.tracedBind (Work.tracedLift fun _ => circlesOk) fun memo => ?_
  cases memo with
  | some sql => exact tracedPure
  | none =>
    simp only [rowStep]
    rw [failFirst]
    refine Work.tracedBind (Work.tracedGuarded trail fun other => ?_) fun sql => ?_
    · exact Draft.workTraced (Draft.withinMono (deeper other) rowUses)
    · exact Work.tracedBind (Work.tracedLift fun _ => circlesOk) fun _ => tracedPure

theorem viewsTraced :
    (s.viewsWork n u).Traced (s.Trail asked base root) stack (liftM (s.requiredViewsFrom m stack u)) := by
  refine stepsTraced known steps bound trail s.viewsWork (fun m stack u => liftM (s.requiredViewsFrom m stack u))
    fun {n m stack u} trail deeper => ?_
  rw [viewsWork,requiredViewsFrom]
  by_cases window : u.field.isWindowDimension
  · rw [if_pos window,if_pos window]
    exact tracedPure
  · rw [if_neg window,if_neg window,liftGuarded]
    exact Work.tracedGuarded trail fun other => gatherTraced (fun _ => filter_sublist.subset) (deeper other)

theorem leavesTraced :
    (s.leavesWork n u).Traced (s.Trail asked base root) stack (liftM (s.measureLeavesFrom m stack u)) := by
  refine stepsTraced known steps bound trail s.leavesWork (fun m stack u => liftM (s.measureLeavesFrom m stack u))
    fun {n m stack u} trail deeper => ?_
  rw [leavesWork,measureLeavesFrom]
  by_cases formula : !u.field.isFormula
  · rw [if_pos formula,if_pos formula]
    exact tracedPure
  · rw [if_neg formula,if_neg formula,liftGuarded]
    exact Work.tracedGuarded trail fun other => gatherTraced Subset.refl (deeper other)

end

theorem groupTraced {symmetric} (mem : symmetric ∈ asked) (known : s.project.Defines u) (measure : u.isMeasure)
    (steps : unseen s.project.fieldIds stack < n) (bound : unseen s.project.fieldIds stack < m)
    (trail : s.Trail asked base root stack u)
    (told : u.field.type ≠ .number → ∀ v, s.TellsBy symmetric u v → s.Trail asked base root stack v) :
    (s.groupWork symmetric n u).Traced (s.Trail asked base root) stack (s.aggregateSqlFrom symmetric m stack u) := by
  induction n generalizing m stack u with
  | zero => exact absurd steps (Nat.not_lt_zero _)
  | succ n ih =>
    cases m with
    | zero => exact absurd bound (Nat.not_lt_zero _)
    | succ m =>
      rw [groupWork,aggregateSqlFrom]
      by_cases number : u.field.type = .number
      · rw [if_pos number,if_pos number]
        cases written : u.field.sql with
        | none => exact Work.tracedLift (Draft.liftStraight (r := .error _) (by simp [Error.isCircle]))
        | some sql =>
          simp only [← expandDraftRun]
          refine Work.tracedGuarded trail fun other => Draft.workTraced (expandWithin fun v mentions => ?_)
          have uses : s.Uses u v := .template (by simp [Field.templates,written]) mentions
          have reached := followsDefined known (usesFollows uses)
          by_cases nested : v.isMeasure
          · simp only [if_pos nested]
            refine Work.tracedBind (ih reached nested (unseenPush known other steps) (unseenPush known other bound)
              (.push trail (.inl uses)) fun aggregate w tells => ?_) fun _ => tracedPure
            have formula : u.field.isFormula := Bool.and_eq_true_iff.mpr ⟨measure,beq_iff_eq.mpr number⟩
            exact .push trail (.inr ⟨symmetric,mem,formula,v,uses,nested,aggregate,tells⟩)
          · simp only [if_neg nested]
            exact rowTraced reached (unseenPush known other steps) unseenFuel (.push trail (.inl uses))
      · rw [if_neg number,if_neg number,← columnDraftRun]
        refine Draft.workTraced (Draft.withinMono (fun v asks => ?_) columnTells)
        rcases asks with rfl | tells
        · exact rowTraced known steps unseenFuel trail
        · exact rowTraced (followsDefined known (tellsFollows tells)) steps unseenFuel (told number v tells)

end Session

inductive Demand where
  | sql (symmetric : Option NameSet)
  | views
  | leaves

namespace Demand
variable {s : Session} {u : FieldUse} {stack : List String} {n : Nat}

def Answer : Demand → Type
  | sql _ => String
  | views => NameSet
  | leaves => List FieldUse

def symmetric? : Demand → Option NameSet
  | sql symmetric => symmetric
  | _ => none

def compiled (s : Session) (stack : List String) (u : FieldUse) : (d : Demand) → Compile d.Answer
  | sql none => s.rowSqlIn stack u
  | sql (some symmetric) => if u.isMeasure then s.aggregateSqlFrom symmetric s.fuel stack u else s.rowSqlIn stack u
  | views => liftM (s.requiredViewsFrom s.fuel stack u)
  | leaves => liftM (s.measureLeavesFrom s.fuel stack u)

def work (s : Session) (n : Nat) (u : FieldUse) : (d : Demand) → Work d.Answer
  | sql none => s.rowWork n u
  | sql (some symmetric) => if u.isMeasure then s.groupWork symmetric n u else s.rowWork n u
  | views => s.viewsWork n u
  | leaves => s.leavesWork n u

theorem traced (known : s.project.Defines u) (enough : s.fuel ≤ n) (d : Demand) :
    (d.work s n u).Traced (s.Trail d.symmetric? stack u) stack (d.compiled s stack u) := by
  have steps : unseen s.project.fieldIds stack < n := Nat.lt_of_lt_of_le unseenFuel enough
  cases d with
  | sql symmetric =>
    cases symmetric with
    | none => exact rowTraced known steps unseenFuel .start
    | some symmetric =>
      have grouped : (if u.isMeasure then s.groupWork symmetric n u else s.rowWork n u).Traced
          (s.Trail (some symmetric) stack u) stack
          (if u.isMeasure then s.aggregateSqlFrom symmetric s.fuel stack u else s.rowSqlIn stack u) := by
        split
        · rename_i measure
          exact groupTraced rfl known measure steps unseenFuel .start fun _ v tells => .key rfl tells
        · exact rowTraced known steps unseenFuel .start
      exact grouped
  | views => exact viewsTraced known steps unseenFuel .start
  | leaves => exact leavesTraced known steps unseenFuel .start

end Demand

namespace Session
variable {s : Session} {u : FieldUse}

def ReportsCircle (s : Session) (u : FieldUse) : Prop :=
  (s.rowSql u).Circles ∨ (∃ symmetric, (s.groupedSql symmetric u).Circles) ∨ Circles (s.requiredViews u) ∨
    Circles (s.measureLeaves u)

theorem reportedCircle (known : s.project.Defines u) (reports : s.ReportsCircle u) : s.Circle u := by
  have demanded (d : Demand) (before) (circles : Circles ((d.compiled s [] u).run before).1) : s.Circle u := by
    obtain ⟨new,_,accounts⟩ := d.traced known (Nat.le_refl s.fuel) before []
    obtain ⟨m,mem,again⟩ := accounts.circle circles
    obtain ⟨a,leads,back,same⟩ := trailBack (accounts.trail m mem) again
    exact ⟨a,m.2,leads,back,same⟩
  rcases reports with ⟨_,e,_,failed,circle⟩ | ⟨symmetric,_,e,_,failed,circle⟩ | views | leaves
  · exact demanded (.sql none) _ ⟨e,congrArg Prod.fst failed,circle⟩
  · exact demanded (.sql (some symmetric)) _ ⟨e,congrArg Prod.fst failed,circle⟩
  · obtain ⟨e,failed,circle⟩ := views
    refine demanded .views {} ⟨e,?_,circle⟩
    rw [Demand.compiled,← requiredViews,failed]
    rfl
  · obtain ⟨e,failed,circle⟩ := leaves
    refine demanded .leaves {} ⟨e,?_,circle⟩
    rw [Demand.compiled,← measureLeaves,failed]
    rfl

end Session
end SemanticSql
