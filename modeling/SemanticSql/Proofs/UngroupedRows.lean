import SemanticSql.Proofs.FanOut
import SemanticSql.Proofs.GroupedAggregates
import SemanticSql.Proofs.JoinConditions
import SemanticSql.Proofs.NamedViews
import SemanticSql.Proofs.SelectList

/-! Queries without groups. Rows are shown as they are if the primary key of the view of the first metric is among the
dimensions. -/
namespace SemanticSql

open List

namespace JoinPlan

theorem firstSpans {g required tried failure base joins} (known : ∀ b ∈ tried, b ∈ required)
    (ok : solveFirst g required failure tried = .ok (base, joins)) : Spans g base required joins := by
  induction tried generalizing failure with
  | nil => cases ok
  | cons b rest ih =>
    rw [solveFirst] at ok
    split at ok
    · rename_i solved
      cases Except.ok.inj ok
      exact (solveSpans solved).2 (known base mem_cons_self)
    · split at ok
      · exact ih (fun v mem => known v (mem_cons_of_mem b mem)) ok
      · cases ok

theorem anySpans {g required preferred base joins}
    (ok : solveAny g required (candidates preferred required) = .ok (base, joins)) : Spans g base required joins := by
  have known : ∀ b ∈ candidates preferred required, b ∈ required := fun b => candidatesMember.mp
  rw [solveAny.eq_def] at ok
  split at ok
  · cases ok
  · rename_i first rest tried
    split at ok
    · rename_i single
      cases Except.ok.inj ok
      obtain ⟨v,rfl⟩ := length_eq_one_iff.mp single
      have same := mem_singleton.mp (known base (tried ▸ mem_cons_self))
      exact ⟨.nil [base],fun w needed => .inl ((mem_singleton.mp needed).trans same.symm)⟩
    · split at ok
      · rename_i found choice
        cases Except.ok.inj ok
        obtain ⟨b,_,induced⟩ := exists_of_findSome?_eq_some choice
        obtain ⟨_,made,same⟩ := Option.map_eq_some_iff.mp induced
        cases same
        exact inducedSpans made
      · split at ok
        · rename_i found solved
          cases Except.ok.inj ok
          exact firstSpans known solved
        · cases ok

theorem topicSpans {g topic required base joins} (ok : solveInTopic g topic required = .ok (base, joins)) :
    ∃ inside, Spans inside base required joins := by
  simp only [solveInTopic] at ok
  split at ok
  · cases ok
  · split at ok
    · rename_i solved
      cases Except.ok.inj ok
      have spans := (solveSpans solved).2 (NameSet.mem_insert.mpr (.inl rfl))
      exact ⟨_,spans.grows,fun v needed => spans.covers v (NameSet.mem_insert.mpr (.inr needed))⟩
    · cases ok

theorem builtKey {p : Project} {choice : Except Error (String × List Join)} {plan}
    (ok : (do let (base, joins) ← choice; .ok (ofJoins (← p.view base) joins)) = Except.ok plan) :
    plan.key = .of plan.base.name plan.joins := by
  obtain ⟨_,_,rest⟩ := exceptBind.mp ok
  obtain ⟨_,_,same⟩ := exceptBind.mp rest
  cases Except.ok.inj same
  rfl

theorem builtSpans {p : Project} {required preferred topic plan} (ok : build p required preferred topic = .ok plan) :
    plan.key = .of plan.base.name plan.joins ∧ ∃ g, Spans g plan.base.name required plan.joins := by
  cases topic with
  | none => exact ⟨builtKey ok,_,anySpans (builtFrom ok)⟩
  | some topic => exact ⟨builtKey ok,topicSpans (builtFrom ok)⟩

end JoinPlan

open JoinPlan FunctionalKey

namespace Database
variable {Row : Type}

theorem leftJoinSingle {db : Database Row} {j r v} (one : db.OneTarget j)
    (shown : ∀ x, r j.base = some x → x ∈ db.rows j.base) (other : v ≠ j.target) :
    (db.leftJoin j r).map (fun s => s v) = [r v] := by
  have same : ∀ y ∈ db.partners j r, ∀ z ∈ db.partners j r, y = z := by
    intro y left z right
    obtain ⟨x,value,rowY,pairY⟩ := partnersMember left
    obtain ⟨_,value',rowZ,pairZ⟩ := partnersMember right
    cases Option.some.inj (value'.symm.trans value)
    exact one x (shown x value) y rowY z rowZ pairY pairZ
  have distinct := db.partnersDistinct j r
  unfold leftJoin
  split
  · simp [Function.update_of_ne other]
  · rename_i y more found
    rw [found] at same distinct
    have alone : more = [] := eq_nil_iff_forall_not_mem.mpr fun z later => by
      cases same y mem_cons_self z (mem_cons_of_mem y later)
      exact (nodup_cons.mp distinct).1 later
    simp [alone,Function.update_of_ne other]

theorem narrowShown {db : Database Row} {edges joined joins all v} (grows : Grows edges joined joins)
    (h : ∀ j ∈ joins, db.Respects j) (narrow : ∀ j ∈ joins, j.relationship.isFanout = false)
    (shows : db.Shows joined all) (known : v ∈ joined) :
    (db.joinMore all joins).map (fun r => r v) = all.map fun r => r v := by
  induction grows generalizing all with
  | nil => rfl
  | @cons joined j rest edge rooted fresh next ih =>
    obtain ⟨first,later⟩ := forall_mem_cons.mp h
    obtain ⟨narrowJ,narrowRest⟩ := forall_mem_cons.mp narrow
    have other : v ≠ j.target := fun same => fresh (same ▸ known)
    have step : (all.flatMap (db.leftJoin j)).map (fun r => r v) = all.map fun r => r v := by
      rw [map_flatMap,map_eq_flatMap]
      refine flatMap_congr fun r mem => ?_
      exact leftJoinSingle (respectsOneTarget first narrowJ) (fun x value => (shows r mem _ x value).2) other
    rw [joinMore,foldl_cons,← joinMore,← step]
    exact ih later narrowRest (showsJoin j shows) (mem_cons_of_mem _ known)

end Database

theorem endsOnce {edges base joins v} (grows : Grows edges [base] joins) (ends : EndsAt base joins v) :
    (∀ (Row : Type) (db : Database Row), (∀ j ∈ joins, db.Respects j) →
      Database.OccursOnce v (db.joinAll base joins)) ↔ ¬ FansOutBehind base joins := by
  have tree := grownRooted grows
  constructor
  · intro once behind
    obtain ⟨m,memM,f,memF,coarse,many,before,after,toBase,onward⟩ := behindParts grows behind
    rcases ends.last with ⟨_,none⟩ | ⟨j,_,rfl,_,all⟩
    · exact none f memF many
    -- The fan-out behind the coarser rows lies on the path to the view, so they come before the view as well.
    · obtain ⟨path,way,inside⟩ := all f memF many
      obtain ⟨front,rest,rfl⟩ := append_of_mem inside
      obtain ⟨_,_,toEnd⟩ := leadsSplit (pathLeads way)
      obtain ⟨db,respects,twice⟩ := repeatedBehind grows memM coarse toBase (leadsAppend onward toEnd)
      exact twice (once Bool db respects)
  · intro straight Row db respects
    exact Database.joinedOnce grows respects v (grainKept grows ((keyEnds tree).mpr ends) straight)

theorem baseShown {Row : Type} {db : Database Row} {edges base joins} (grows : Grows edges [base] joins)
    (ends : EndsAt base joins base) (respects : ∀ j ∈ joins, db.Respects j) :
    (db.joinAll base joins).map (fun r => r base) = (db.rows base).map some := by
  have none : ∀ j ∈ joins, j.relationship ≠ .oneToMany := by
    rcases ends.last with ⟨_,none⟩ | ⟨j,mem,same,_⟩
    · exact none
    · exact absurd (mem_singleton.mpr same.symm) (growsFresh grows j mem)
  have narrow : ∀ j ∈ joins, j.relationship.isFanout = false :=
    fun j mem => narrowOf (none j mem) (ends.narrow j mem)
  rw [Database.joinAll,Database.narrowShown grows respects narrow (db.startShows base) mem_cons_self,
    Database.start,map_map]
  refine map_congr_left fun x _ => ?_
  rw [Function.comp_apply,Function.update_self]

namespace Plan

theorem ungroupedKey {p : Plan} (rows : p.raw = false) (ungrouped : p.isUngrouped) :
    p.forceGroups = false ∧ ∃ first, p.metrics.head? = some first ∧ ∃ d ∈ p.dimensions,
      d.field.primaryKey ∧ d.grain = none ∧ d.view.name = first.view.name := by
  simp only [isUngrouped,rows,Bool.false_or,Bool.and_eq_true] at ungrouped
  obtain ⟨free,keyed⟩ := ungrouped
  split at keyed
  · contradiction
  · rename_i first found
    obtain ⟨d,mem,key⟩ := any_eq_true.mp keyed
    simp only [Bool.and_eq_true,Option.isNone_iff_eq_none,beq_iff_eq] at key
    exact ⟨by simpa using free,first,found,d,mem,key.1.1,key.1.2,key.2⟩

theorem planSpans {s : Session} {topic : Option Topic} {p : Plan} {plan : JoinPlan}
    (ok : p.joinPlan s topic = .ok plan) :
    plan.key = .of plan.base.name plan.joins ∧ ∃ g required, Spans g plan.base.name required plan.joins ∧
      ∀ u ∈ p.fields, u.view.name ∈ required := by
  rw [joinPlan] at ok
  obtain ⟨required,touched,rest⟩ := exceptBind.mp ok
  split at rest
  · cases rest
  · obtain ⟨key,g,spans⟩ := builtSpans rest
    refine ⟨key,g,required,spans,fun u mem => ?_⟩
    obtain ⟨views,found,inside⟩ := (Session.unionHolds touched).2 u mem
    exact inside _ (Session.requiredFound found).own

theorem ungroupedRowsFinest {s : Session} {topic : Option Topic} {p : Plan} {plan : JoinPlan} (rows : p.raw = false)
    (ungrouped : p.isUngrouped) (ok : p.joinPlan s topic = .ok plan) :
    ∃ first, p.metrics.head? = some first ∧
      (∃ d ∈ p.dimensions, d.field.primaryKey ∧ d.grain = none ∧ d.view.name = first.view.name) ∧
      first.view.name ∈ plan.viewNames ∧
      (plan.key = .view first.view.name ↔ EndsAt plan.base.name plan.joins first.view.name) ∧
      (EndsAt plan.base.name plan.joins first.view.name →
        ((∀ (Row : Type) (db : Database Row), (∀ j ∈ plan.joins, db.Respects j) →
          Database.OccursOnce first.view.name (db.joinAll plan.base.name plan.joins)) ↔
          ¬ FansOutBehind plan.base.name plan.joins) ∧
        (first.view.name = plan.base.name → ∀ (Row : Type) (db : Database Row), (∀ j ∈ plan.joins, db.Respects j) →
          (db.joinAll plan.base.name plan.joins).map (fun r => r first.view.name) =
            (db.rows first.view.name).map some)) := by
  obtain ⟨_,first,found,shown⟩ := ungroupedKey rows ungrouped
  obtain ⟨key,g,required,spans,touched⟩ := planSpans ok
  have metric : first ∈ p.fields := by
    simp [fields,List.mem_of_head? found]
  refine ⟨first,found,shown,?_,key ▸ keyEnds (grownRooted spans.grows),fun ends => ⟨endsOnce spans.grows ends,?_⟩⟩
  · exact List.mem_cons.mpr (spans.covers _ (touched first metric))
  · intro root Row db respects
    rw [root] at ends ⊢
    exact baseShown spans.grows ends respects

theorem joinPlanFound {s : Session} {topic : Option Topic} {p : Plan} {base joins key}
    (found : (p.joinPlan s topic).toOption.map (fun plan => (plan.base.name, plan.joins, plan.key)) =
      some (base, joins, key)) :
    ∃ plan, p.joinPlan s topic = .ok plan ∧ plan.base.name = base ∧ plan.joins = joins ∧ plan.key = key := by
  cases ok : p.joinPlan s topic with
  | error e =>
    rw [ok] at found
    cases found
  | ok plan =>
    rw [ok] at found
    cases Option.some.inj found
    exact ⟨plan,rfl,rfl,rfl,rfl⟩

def revenueByKey : Plan where
  metrics := [⟨orderView,revenueField,none⟩]
  dimensions := [⟨orderView,Layout.keyField,none⟩,⟨lineView,skuField,none⟩]

theorem ordersShownPerLine :
    (¬ ∀ (d : Definitions) (s : Session) (topic : Option Topic) (p : Plan) (plan : JoinPlan) first,
      s.project = .ofDefinitions d → p.raw = false → p.isUngrouped → p.joinPlan s topic = .ok plan →
      p.metrics.head? = some first → plan.key = .view first.view.name) ∧
    revenueByKey.isUngrouped ∧ ∃ plan, revenueByKey.joinPlan lineScope.toSession none = .ok plan ∧
      ∃ db : Database Bool, (∀ j ∈ plan.joins, db.Respects j) ∧
        ¬ Database.OccursOnce "orders" (db.joinAll plan.base.name plan.joins) := by
  have found : (revenueByKey.joinPlan lineScope.toSession none).toOption.map
      (fun plan => (plan.base.name, plan.joins, plan.key)) = some ("lines", lineGraph.joins, .view "lines") := by
    decide +kernel
  obtain ⟨plan,ok,base,joins,key⟩ := joinPlanFound found
  refine ⟨fun all => ?_,rfl,plan,ok,?_⟩
  · have defined : lineScope.project = .ofDefinitions { views := [lineView,orderView] } := by
      rw [lineScope,← lineViewsGraph]
      rfl
    have view := all _ lineScope.toSession none revenueByKey plan _ defined rfl rfl ok rfl
    rw [key] at view
    exact absurd view (by decide)
  · rw [base,joins]
    have grows : Grows lineGraph.joins ["lines"] lineGraph.joins :=
      .cons List.mem_cons_self List.mem_cons_self (by decide) (.nil _)
    exact repeatedBehind grows List.mem_cons_self rfl (.here "lines") (.here "orders")

def goalTopic : Topic where
  name := "goals"
  baseView := "targets"
  views := [("orders", { join := some {
    relationship := .oneToMany, condition := "$\x7borders.target_id\x7d=$\x7btargets.id\x7d" } })]

theorem gapShownPerOrder :
    ∃ plan, Layout.gapByOrder.joinPlan Layout.targetSession (some goalTopic) = .ok plan ∧ plan.base.name = "targets" ∧
      plan.key = .view "orders" ∧ EndsAt plan.base.name plan.joins "orders" ∧
      ∀ (Row : Type) (db : Database Row), (∀ j ∈ plan.joins, db.Respects j) →
        Database.OccursOnce "orders" (db.joinAll plan.base.name plan.joins) := by
  have found : (Layout.gapByOrder.joinPlan Layout.targetSession (some goalTopic)).toOption.map
      (fun plan => (plan.base.name, plan.joins, plan.key)) = some ("targets", goalTopic.joins, .view "orders") := by
    decide +kernel
  obtain ⟨plan,ok,base,joins,key⟩ := joinPlanFound found
  obtain ⟨first,metric,_,_,ends,rows⟩ := ungroupedRowsFinest rfl rfl ok
  cases Option.some.inj metric
  have last := ends.mp key
  refine ⟨plan,ok,base,key,last,(rows last).1.mpr ?_⟩
  rw [base,joins]
  unfold FansOutBehind
  decide +kernel

end Plan

end SemanticSql
