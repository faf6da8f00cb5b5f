import Mathlib.Data.List.Chain
import SemanticSql.Proofs.OfferedFields

/-! Chains of fields in progress. Each field on the stack leads to the one that was put there after it, so that a
field which is met again closes a chain, and this chain is what is reported. -/
namespace SemanticSql

open Session (cycleError)

namespace Session
variable {s : Session} {asked : Option NameSet} {root u : FieldUse} {stack : List String}

def Linked (s : Session) (asked : Option NameSet) (a b : String) : Prop :=
  ∃ u v, s.project.Defines u ∧ s.project.Defines v ∧ u.id = a ∧ v.id = b ∧ s.Links asked u v

theorem trailLinked (known : s.project.Defines root) (trail : s.Trail asked [] root stack u) :
    (u.id :: stack).IsChain fun later earlier => s.Linked asked earlier later := by
  induction trail with
  | start => exact .singleton _
  | key => exact .singleton _
  | @push _ u v before links ih =>
    have reached := leadsDefined known (trailLeads before)
    exact .cons_cons ⟨u,v,reached,leadsDefined reached (linksLeads links).to_reflTransGen,rfl,rfl,links⟩ ih

theorem trailChain (known : s.project.Defines root) (trail : s.Trail asked [] root stack u) (again : u.id ∈ stack) :
    ∃ middle, cycleError stack u.id = .model (.cycle u.id (u.id :: (middle ++ [u.id]))) ∧
      (u.id :: (middle ++ [u.id])).IsChain (s.Linked asked) := by
  have chain : (stack.reverse ++ [u.id]).IsChain (s.Linked asked) := by
    rw [← List.reverse_cons]
    exact List.isChain_reverse.mpr (trailLinked known trail)
  obtain ⟨before,middle,split,fresh⟩ := List.eq_append_cons_of_mem (List.mem_reverse.mpr again)
  have closed : stack.reverse ++ [u.id] = before ++ u.id :: (middle ++ [u.id]) := by simp [split]
  rw [closed] at chain
  refine ⟨middle,?_,chain.right_of_append⟩
  have skipped : ∀ a ∈ before, (a != u.id) = true := by
    intro a mem
    rw [bne_iff_ne]
    rintro rfl
    exact fresh mem
  rw [cycleError,closed,List.dropWhile_append_of_pos skipped]
  simp

end Session

namespace Demand
variable {s : Session} {u : FieldUse}

structure Guarded (s : Session) (u : FieldUse) (stack : List String) (before : Progress) (d : Demand)
    (ran : Except Error d.Answer × Expander) : Prop where
  restored : ran.2.inProgress = stack
  compiled : (d.compiled s stack u).run before = (ran.1, ran.2.progress)
  met : ∀ m ∈ ran.2.met, m.2.id ∈ m.1 → ran.1 = .error (cycleError m.1 m.2.id)
  circle : ∀ e, ran.1 = .error e → e.isCircle → ∃ m ∈ ran.2.met, m.2.id ∈ m.1 ∧ e = cycleError m.1 m.2.id
  chain : stack = [] → ∀ e, ran.1 = .error e → e.isCircle → ∃ id middle,
    e = .model (.cycle id (id :: (middle ++ [id]))) ∧ (id :: (middle ++ [id])).IsChain (s.Linked d.symmetric?)

theorem expansionsGuarded (d : Demand) (known : s.project.Defines u) (stack : List String) (before : Progress) {n}
    (enough : s.fuel ≤ n) : d.Guarded s u stack before ((d.work s n u).run ⟨before,stack,[]⟩) := by
  obtain ⟨met,ran,accounts⟩ := @traced s u stack n known enough d before []
  rw [List.append_nil] at ran
  have circle (e) (failed : ((d.compiled s stack u).run before).1 = .error e) (circle : e.isCircle) :
      ∃ m ∈ met, m.2.id ∈ m.1 ∧ e = cycleError m.1 m.2.id := by
    obtain ⟨m,mem,again⟩ := accounts.circle ⟨e,failed,circle⟩
    exact ⟨m,mem,again,Except.error.inj (failed.symm.trans (accounts.again m mem again))⟩
  rw [ran]
  refine ⟨rfl,rfl,accounts.again,circle,fun empty e failed reports => ?_⟩
  subst empty
  obtain ⟨m,mem,again,rfl⟩ := circle e failed reports
  obtain ⟨middle,named,chain⟩ := Session.trailChain known (accounts.trail m mem) again
  exact ⟨m.2.id,middle,named,chain⟩

def batchView : View := {
  name := "orders", tableName := some "db.orders"
  fields := [
    .dimension "batch" "$\x7bmargin\x7d",
    { name := "total", role := .measure, type := .sumDistinct, sql := some "$\x7bTABLE\x7d.amount",
      distinctKey := some "$\x7bbatch\x7d" },
    { name := "margin", role := .measure, type := .number, sql := some "$\x7btotal\x7d / 2" }] }

def batchSession : Session := {
  project := .ofDefinitions { views := [batchView] }
  context := { dialect := .snowflake, now := ⟨⟨2024,1,1⟩,0,0,0,0⟩ } }

def batchUse (i : Fin 3) (grain : Option Grain) : FieldUse := ⟨batchView,batchView.fields.get i,grain⟩

theorem batchDefined {v} : batchSession.project.Defines v ↔ ∃ i grain, v = batchUse i grain := by
  constructor
  · obtain ⟨view,field,grain⟩ := v
    rintro ⟨viewKnown,fieldKnown⟩
    have same : view = batchView := List.mem_singleton.mp viewKnown
    subst same
    obtain ⟨i,rfl⟩ : ∃ i, batchView.fields.get i = field := List.get_of_mem fieldKnown
    exact ⟨i,grain,rfl⟩
  · rintro ⟨i,grain,rfl⟩
    exact ⟨List.mem_cons_self,List.get_mem batchView.fields i⟩

theorem marginGuarded : batchSession.project.Defines (batchUse 2 none) ∧ batchSession.fuel ≤ 9 ∧
    (sql (some [])).Guarded batchSession (batchUse 2 none) [] {}
      (((sql (some [])).work batchSession 9 (batchUse 2 none)).run ⟨{},[],[]⟩) := by
  have known := batchDefined.mpr ⟨2,none,rfl⟩
  have enough : batchSession.fuel ≤ 9 := by decide
  exact ⟨known,enough,expansionsGuarded (sql (some [])) known [] {} enough⟩

theorem marginUses {grain v} (uses : batchSession.Uses (batchUse 2 grain) v) : v = batchUse 1 none := by
  have listed : batchSession.referencedFields (batchUse 2 grain) = .ok [batchUse 1 none] := by
    rfl
  have draws : batchSession.DrawsOn [] (batchUse 2 grain) v := Session.usesDraws uses
  rcases draws.source with found | left
  · exact List.mem_singleton.mp (found _ listed)
  · cases left with
    | counted _ count => cases count
    | repeated _ additive =>
      have other : FieldType.number ∉ [.sum,.count,.average] := by decide
      exact absurd additive other
    | column dimension => cases dimension

/- The total is not on the stack while its key is expanded over groups, so the chain leaves it out. -/
theorem aggregateLeftOut :
    ((batchSession.groupedSql [] (batchUse 2 none)).run {}).1 =
        .error (.model (.cycle "orders.margin" ["orders.margin","orders.batch","orders.margin"])) ∧
      ¬ batchSession.Linked none "orders.margin" "orders.batch" ∧
      batchSession.requiredViews (batchUse 2 none) =
        .error (.model (.cycle "orders.margin" ["orders.margin","orders.total","orders.batch","orders.margin"])) := by
  refine ⟨by decide +kernel,?_,by decide +kernel⟩
  rintro ⟨u,v,known,_,margin,batch,uses | ⟨_,mem,_⟩⟩
  · obtain ⟨i,grain,rfl⟩ := batchDefined.mp known
    have only : ∀ i, (batchUse i none).id = "orders.margin" → i = 2 := by decide +kernel
    cases only i margin
    cases marginUses uses
    exact absurd batch (by decide +kernel)
  · cases mem

end Demand
end SemanticSql
