import SemanticSql.Filter.Binding
import SemanticSql.Proofs.FilterText

/-! Warnings of a compilation. Every step passes on the warnings before it, so what is warned of once is still known
in the end, also if the step fails and another one is tried in its place. -/
namespace SemanticSql

namespace Compile

variable {α β : Type} {kind : String → Prop} {final : List String}

structure Keeps (kind : String → Prop) (step : Compile α) : Prop where
  kept : ∀ before, before.warnings ⊆ (step.run before).2.warnings
  added : ∀ before, ∀ text ∈ (step.run before).2.warnings, text ∈ before.warnings ∨ kind text

variable {step : Compile α} {P : α → Prop} {next : α → Compile β} {e : Error} {r : Except Error α} {xs : List α} {Q : β → Prop}

theorem keepsSame (same : ∀ before, (step.run before).2.warnings = before.warnings) : step.Keeps kind :=
  ⟨fun before => (same before).symm ▸ List.Subset.refl _,fun before _ mem => .inl (same before ▸ mem)⟩

theorem keepsPure {a : α} : (pure a : Compile α).Keeps kind := keepsSame fun _ => rfl

theorem keepsFail : (fail e : Compile α).Keeps kind := keepsSame fun _ => rfl

theorem keepsLift : Keeps kind (liftM r : Compile α) := by
  refine keepsSame fun before => ?_
  cases r <;> rfl

theorem keepsKnown {key : String} : (known? key).Keeps kind := keepsSame fun _ => rfl

theorem keepsRemember {key sql : String} : (remember key sql).Keeps kind := keepsSame fun _ => rfl

theorem keepsWarn {text : String} (allowed : kind text) : (warn text).Keeps kind := by
  have ran (before : Progress) : ((warn text).run before).2.warnings = addWarning before.warnings text := rfl
  refine ⟨fun before => ?_,fun before other mem => ?_⟩
  · rw [ran,addWarning]
    split
    · exact List.Subset.refl _
    · exact List.subset_append_left _ _
  · rw [ran,addWarning] at mem
    split at mem
    · exact .inl mem
    · rcases List.mem_append.mp mem with old | new
      · exact .inl old
      · exact .inr (List.mem_singleton.mp new ▸ allowed)

theorem warned {text : String} {before a after} (ok : (warn text).Returns before a after) : text ∈ after.warnings := by
  cases ok
  show text ∈ addWarning before.warnings text
  rw [addWarning]
  split
  · rename_i known
    exact List.contains_iff_mem.mp known
  · exact List.mem_append_right _ List.mem_cons_self

theorem keepsBind (first : step.Keeps kind) (later : ∀ a, (next a).Keeps kind) : (step >>= next).Keeps kind := by
  refine ⟨fun before => ?_,fun before text mem => ?_⟩
  · have start := first.kept before
    rw [runBind]
    rcases ran : step.run before with ⟨_ | a,middle⟩ <;> rw [ran] at start
    · exact start
    · exact List.Subset.trans start ((later a).kept middle)
  · have start := first.added before
    rw [runBind] at mem
    rcases ran : step.run before with ⟨_ | a,middle⟩ <;> rw [ran] at start mem
    · exact start text mem
    · rcases (later a).added middle text mem with old | new
      · exact start text old
      · exact .inr new

theorem keepsEach {step : α → Compile β} (each : ∀ x ∈ xs, (step x).Keeps kind) : (xs.mapM step).Keeps kind := by
  induction xs with
  | nil => exact keepsPure
  | cons x rest ih =>
    obtain ⟨first,later⟩ := List.forall_mem_cons.mp each
    rw [List.mapM_cons]
    exact keepsBind first fun _ => keepsBind (ih later) fun _ => keepsPure

theorem keepsFold {step : β → α → Compile β} {start : β} (each : ∀ b x, (step b x).Keeps kind) :
    (xs.foldlM step start).Keeps kind := by
  induction xs generalizing start with
  | nil => exact keepsPure
  | cons x rest ih =>
    rw [List.foldlM_cons]
    exact keepsBind (each start x) fun _ => ih

/- A step whose result is as it should be, given the warnings of the end. -/
structure Judged (kind : String → Prop) (final : List String) (step : Compile α) (P : α → Prop) : Prop
    extends step.Keeps kind where
  holds : ∀ before a after, step.Returns before a after → after.warnings ⊆ final → P a

theorem Keeps.judged (keeps : step.Keeps kind)
    (all : ∀ before a after, step.Returns before a after → P a) : step.Judged kind final P :=
  ⟨keeps,fun before a after ok _ => all before a after ok⟩

theorem judgedPure {a : α} (holds : P a) : (pure a : Compile α).Judged kind final P := by
  refine keepsPure.judged fun before b after ok => ?_
  obtain ⟨rfl,_⟩ := returnsPure.mp ok
  exact holds

theorem judgedFail : (fail e : Compile α).Judged kind final P :=
  keepsFail.judged fun _ _ _ ok => absurd ok returnsFail

theorem failBind : (fail e >>= next) = fail e := rfl

theorem judgedLift (holds : ∀ a, r = .ok a → P a) : Judged kind final (liftM r : Compile α) P :=
  keepsLift.judged fun _ a _ ok => holds a (returnsLift.mp ok).1

/- What is known of the first result is known while the second one is judged. -/
theorem judgedBind (first : step.Judged kind final P) (later : ∀ a, (next a).Judged kind final fun b => P a → Q b) :
    (step >>= next).Judged kind final Q := by
  refine ⟨keepsBind first.toKeeps fun a => (later a).toKeeps,fun before b after ok within => ?_⟩
  obtain ⟨a,middle,ran,rest⟩ := returnsBind.mp ok
  have passed : middle.warnings ⊆ after.warnings := by
    have kept := (later a).kept middle
    rwa [rest] at kept
  exact (later a).holds middle b after rest within (first.holds before a middle ran (List.Subset.trans passed within))

theorem judgedThen (first : step.Keeps kind)
    (later : ∀ a, (next a).Judged kind final Q) : (step >>= next).Judged kind final Q :=
  judgedBind (first.judged fun _ _ _ _ => trivial) fun a =>
    ⟨(later a).toKeeps,fun before b after ok within _ => (later a).holds before b after ok within⟩

theorem judgedFound
    (later : ∀ a, r = .ok a → (next a).Judged kind final Q) : Judged kind final (liftM r >>= next) Q := by
  cases r with
  | error e => exact judgedFail
  | ok a =>
    show ((pure a : Compile α) >>= next).Judged kind final Q
    rw [pure_bind]
    exact later a rfl

theorem judgedMore {Q : α → Prop} (judged : step.Judged kind final P) (more : ∀ a, P a → Q a) :
    step.Judged kind final Q :=
  ⟨judged.toKeeps,fun before a after ok within => more a (judged.holds before a after ok within)⟩

def Gives (step : Compile α) (a : α) : Prop := ∃ before after, step.Returns before a after

theorem keepsGives (keeps : step.Keeps kind) : step.Judged kind final step.Gives :=
  keeps.judged fun before _ after ok => ⟨before,after,ok⟩

theorem judgedGives (judged : step.Judged kind final P) : step.Judged kind final fun a => step.Gives a ∧ P a :=
  ⟨judged.toKeeps,fun before a after ok within => ⟨⟨before,after,ok⟩,judged.holds before a after ok within⟩⟩

theorem judgedEach {step : α → Compile β} {R : α → β → Prop}
    (each : ∀ x ∈ xs, (step x).Judged kind final (R x)) : (xs.mapM step).Judged kind final (List.Forall₂ R xs) := by
  induction xs with
  | nil => exact judgedPure .nil
  | cons x rest ih =>
    obtain ⟨first,later⟩ := List.forall_mem_cons.mp each
    rw [List.mapM_cons]
    exact judgedBind first fun _ => judgedBind (ih later) fun _ => judgedPure fun tail head => .cons head tail

theorem judgedAttempt (judged : step.Judged kind final P) :
    step.attempt.Judged kind final fun outcome => ∀ a, outcome = .ok a → P a := by
  refine ⟨⟨judged.kept,judged.added⟩,fun before outcome after ok within a same => ?_⟩
  have ran : step.run before = (outcome, after) := by
    have tried : step.attempt.run before = (.ok (step.run before).1, (step.run before).2) := rfl
    rw [Returns,tried] at ok
    obtain ⟨result,rest⟩ := Prod.mk.inj ok
    exact Prod.ext (Except.ok.inj result) rest
  subst same
  exact judged.holds before a after ran within

end Compile

namespace Filter
open Compile

variable {kind : String → Prop} {final : List String} {c : Context} {column : FieldUse → Compile String}
  {P : FieldUse → String → Prop}

theorem literalJudged (shown : ∀ u, (column u).Judged kind final (P u)) {parts} :
    (literalSql column parts).Judged kind final (Rendered c P (.literal parts)) := by
  refine judgedBind (judgedEach (R := PartRendered P) fun part _ => ?_) fun _ => judgedPure .literal
  cases part with
  | text s => exact judgedPure rfl
  | field token u => exact shown u

mutual

theorem sqlJudged (shown : ∀ u, (column u).Judged kind final (P u)) (f : Filter) :
    (f.sql c column).Judged kind final (Rendered c P f) := by
  cases f with
  | condition u predicate value =>
    rw [Filter.sql]
    exact judgedBind (shown u) fun _ => judgedLift fun _ applied column => .condition column applied
  | group conditions connective =>
    rw [Filter.sql]
    exact judgedBind (sqlOfJudged shown conditions) fun _ => judgedPure (.group connective)
  | literal parts =>
    rw [Filter.sql]
    exact literalJudged shown
  | inQuery u negated table name =>
    rw [Filter.sql]
    exact judgedBind (shown u) fun _ => judgedPure (.inQuery negated table name)

theorem sqlOfJudged (shown : ∀ u, (column u).Judged kind final (P u)) (filters : List Filter) :
    (sqlOf c column filters).Judged kind final (RenderedAll c P filters) := by
  cases filters with
  | nil =>
    rw [sqlOf]
    exact judgedPure .nil
  | cons f rest =>
    rw [sqlOf]
    exact judgedBind (sqlJudged shown f) fun _ => judgedBind (sqlOfJudged shown rest) fun _ =>
      judgedPure fun others first => .cons first others

end

theorem sqlOfKeeps (keeps : ∀ u, (column u).Keeps kind) (filters : List Filter) : (sqlOf c column filters).Keeps kind := by
  have shown (u : FieldUse) : (column u).Judged kind [] fun _ => True := (keeps u).judged fun _ _ _ _ => trivial
  exact (sqlOfJudged shown filters).toKeeps

end Filter

end SemanticSql
