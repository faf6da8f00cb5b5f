import SemanticSql.Proofs.GrantedRequests
import SemanticSql.Proofs.ReportedAggregates
import SemanticSql.Proofs.SubqueryColumns

/-! Warnings of a compiled request. Whichever way a request is compiled, and however deep a grouped query stands in
the result, an aggregate that may be inflated is named by the warnings of the end. -/
namespace SemanticSql
open List Compile

def Binding.Reads {α : Type} (kind : String → Prop) (final : List String) (answers : Request → Query → Prop)
    (held : Request → Prop) (step : Binding α) : Prop :=
  ∀ tables, (step.run tables).Judged kind final fun out => ∀ t ∈ out.2, t ∈ tables ∨ ∃ r, held r ∧ answers r t.2

namespace Binding
variable {α β : Type} {kind : String → Prop} {final : List String} {answers : Request → Query → Prop}
  {held : Request → Prop}

theorem readsPure {a : α} : Reads kind final answers held (pure a : Binding α) :=
  fun _ => judgedPure fun _ mem => .inl mem

theorem readsLift {step : Compile α} (keeps : step.Keeps kind) :
    Reads kind final answers held (liftM step : Binding α) :=
  fun _ => judgedThen keeps fun _ => judgedPure fun _ mem => .inl mem

theorem readsBind {step : Binding α} {next : α → Binding β} (first : step.Reads kind final answers held)
    (later : ∀ a, (next a).Reads kind final answers held) : (step >>= next).Reads kind final answers held := by
  intro tables
  rw [StateT.run_bind]
  refine judgedBind (first tables) fun out => judgedMore (later out.1 out.2) fun last rest known t mem => ?_
  exact (rest t mem).elim (known t) .inr

theorem readsFound {x : Except Error α} {next : α → Binding β}
    (later : ∀ a, x = .ok a → (next a).Reads kind final answers held) :
    Reads kind final answers held ((liftM (liftM x : Compile α) : Binding α) >>= next) := by
  intro tables
  rw [StateT.run_bind,runLifted,bind_assoc]
  refine judgedFound fun a found => ?_
  rw [pure_bind]
  exact later a found tables

theorem heldMore {step : Binding α} {more : Request → Prop} (reads : step.Reads kind final answers held)
    (also : ∀ r, held r → more r) : step.Reads kind final answers more :=
  fun tables => judgedMore (reads tables) fun _ known t mem =>
    (known t mem).imp_right fun ⟨r,asked,answered⟩ => ⟨r,also r asked,answered⟩

theorem readsChecks {step : α → Compile Unit} {xs : List α} (keeps : ∀ x, (step x).Keeps kind) :
    Reads kind final answers held (xs.forM fun x => (step x : Binding Unit)) := by
  induction xs with
  | nil => exact readsPure
  | cons x rest ih => exact readsBind (readsLift (keeps x)) fun _ => ih

end Binding

theorem Request.itemHeld {r q : Request} {item} (mem : item ∈ r.filterItems) (held : item.clause.Holds q) : r.Holds q := by
  cases asked : r.filter with
  | none => simp [filterItems,asked] at mem
  | some c =>
    have listed : c ∈ r.clauses := clausesMember.mpr (.inl asked)
    simp only [filterItems,asked,Option.map_some,Option.getD_some] at mem
    cases c with
    | text sql =>
      rw [FilterItem.ofClause] at mem
      split at mem
      · exact absurd mem not_mem_nil
      · cases mem_singleton.mp mem
        exact held.elim
    | list filters =>
      obtain ⟨f,known,rfl⟩ := mem_map.mp mem
      exact ⟨_,listed,holdsMember.mpr ⟨f,known,held⟩⟩
    | single f =>
      cases mem_singleton.mp mem
      exact ⟨_,listed,held⟩

namespace Scope
variable {s : Scope} {nested : Nested} {kind : String → Prop} {final : List String} {answers : Request → Query → Prop}

open Binding

section
variable (compiles : ∀ r, (nested r).Judged kind final (answers r))
include compiles

theorem subqueryReads {value : Value} :
    (s.subquery nested value).Reads kind final answers fun r => ∃ name, readSubquery value = .ok (r, name) := by
  intro tables
  rw [subquerySteps]
  refine judgedFound fun ⟨r,name⟩ read => judgedFound fun u _ => judgedFound fun column _ => ?_
  refine judgedBind (compiles r) fun query => judgedPure fun answered t mem => ?_
  rcases mem_append.mp mem with known | added
  · exact .inl known
  · cases mem_singleton.mp added
    exact .inr ⟨r,⟨name,read⟩,answered⟩

theorem conditionReads {field expression : String} {value : Option Value} :
    (Filter.bindCondition s.project (s.subquery nested) field expression value).Reads kind final answers
      (FilterSpec.condition field expression value).Holds := by
  refine readsFound fun predicate named => readsFound fun u _ => ?_
  split
  · exact readsLift keepsFail
  · split
    · rename_i negated _
      refine readsBind (heldMore (subqueryReads compiles) fun r found => ?_) fun _ => readsPure
      obtain ⟨name,read⟩ := found
      cases value with
      | none => cases read
      | some v => exact ⟨negated,v,name,named,rfl,read⟩
    · exact readsPure

end

mutual

theorem specReads (compiles : ∀ r, (nested r).Judged kind final (answers r)) (f : FilterSpec) :
    (Filter.bindSpec s.project (s.subquery nested) f).Reads kind final answers f.Holds := by
  cases f with
  | group conditions connective =>
    rw [Filter.bindSpec]
    exact readsBind (specsRead compiles conditions) fun _ => readsLift keepsLift
  | condition field expression value =>
    rw [Filter.bindSpec]
    exact conditionReads compiles

theorem specsRead (compiles : ∀ r, (nested r).Judged kind final (answers r)) (filters : List FilterSpec) :
    (Filter.bindSpecs s.project (s.subquery nested) filters).Reads kind final answers (holdsOf filters) := by
  cases filters with
  | nil =>
    rw [Filter.bindSpecs]
    exact readsPure
  | cons f rest =>
    rw [Filter.bindSpecs]
    exact readsBind (heldMore (specReads compiles f) fun _ => .inl) fun _ =>
      readsBind (heldMore (specsRead compiles rest) fun _ => .inr) fun _ => readsPure

end

section
variable (compiles : ∀ r, (nested r).Judged kind final (answers r))
include compiles

theorem bindReads (c : Clause) : (s.bind nested c).Reads kind final answers c.Holds := by
  have binds : (Filter.bindClause s.project (s.subquery nested) c).Reads kind final answers c.Holds := by
    cases c with
    | text sql =>
      rw [Filter.bindClause]
      split
      · exact readsPure
      · exact readsBind (readsLift keepsLift) fun _ => readsPure
    | list filters => exact specsRead compiles filters
    | single f => exact readsBind (specReads compiles f) fun _ => readsPure
  exact readsBind binds fun _ => readsBind (readsChecks fun _ => keepsLift) fun _ => readsPure

theorem bindAllReads (clauses : List Clause) :
    (s.bindAll nested clauses).Reads kind final answers fun r => ∃ c ∈ clauses, c.Holds r := by
  induction clauses with
  | nil => exact readsPure
  | cons c rest ih =>
    refine readsBind (heldMore (bindReads compiles c) fun r held => ⟨c,mem_cons_self,held⟩) fun _ =>
      readsBind (heldMore ih ?_) fun _ => readsPure
    rintro r ⟨c,mem,held⟩
    exact ⟨c,mem_cons_of_mem _ mem,held⟩

theorem splitReads (items : List FilterItem) :
    (s.splitItems nested items).Reads kind final answers fun r => ∃ item ∈ items, item.clause.Holds r := by
  induction items with
  | nil => exact readsPure
  | cons item rest ih =>
    have later : (s.splitItems nested rest).Reads kind final answers fun r =>
        ∃ other ∈ item :: rest, other.clause.Holds r :=
      heldMore ih fun r found => found.imp fun _ held => held.imp_left (mem_cons_of_mem _)
    refine readsFound fun fields _ => ?_
    split
    · refine readsBind (heldMore (bindReads compiles item.clause) fun r held => ⟨item,mem_cons_self,held⟩) fun _ => ?_
      exact readsBind later fun _ => readsPure
    · exact readsBind later fun _ => readsPure

end

def ReadBy (answers : Request → Query → Prop) (r : Request) (tables : Tables) : Prop :=
  ∀ t ∈ tables, ∃ inner, r.Holds inner ∧ answers inner t.2

structure TotalsFor (s : Session) (p : Plan) (t : TotalsPlan) : Prop where
  plan : t.plan = p
  measures : ∃ leaves, (wantedMeasures p).mapM s.totalLeaves = .ok leaves ∧
    (Session.addUses [] (leaves.flatten.filter fun u => u.field.isCumulative)).mapM (RunningTotal.ofMetric s) = .ok t.totals ∧
    t.others = Session.addUses [] (leaves.flatten.filter fun u => !u.field.isCumulative)

inductive TotalsTable (s : Scope) (warnings : List String) (t : TotalsPlan) : String × Query → Prop
  | spine {sql} (known : s.context.dialect.dateSpine? = some sql) : TotalsTable s warnings t (dateSpine, .ofText sql)
  | rows {total condition query} (mem : total ∈ t.totals)
      (reported : (total.rowsPlan t.plan condition).Reported s.toSession s.topic warnings query) :
      TotalsTable s warnings t (total.rowsTable, query)
  | totals {total select} (mem : total ∈ t.totals)
      (selected : total.totalsSelect s.toSession t.plan.dimensions = .ok select) :
      TotalsTable s warnings t (total.totalsTable, .ofSelect select)
  | base {query} (reported : t.basePlan.Reported s.toSession s.topic warnings query) :
      TotalsTable s warnings t (TotalsPlan.baseTable, query)

inductive FunnelTable (s : Scope) (warnings : List String) (f : FunnelPlan) : String × Query → Prop
  | events {query} (reported : f.eventsPlan.Reported s.toSession s.topic warnings query) :
      FunnelTable s warnings f (Funnel.eventsTable, query)
  | step {filters n select} (mem : (filters, n) ∈ f.steps.zipIdx 1) (stepped : (f.step s.context n filters).Gives select) :
      FunnelTable s warnings f (Funnel.stepTable n, .ofSelect select)
  | counts {selects}
      (counted : List.Forall₂ (fun n select => f.counts s.toSession (n + 1) = .ok select) (List.range f.steps.length) selects) :
      FunnelTable s warnings f (Funnel.resultTable, .mk [] (.union selects) [] none)

inductive Single (s : Scope) (warnings : List String) (nested : Nested) (answers : Request → Query → Prop) (r : Request) :
    Query → Prop
  | joined {p q} (plain : r.funnel = none) (planned : (s.plan nested r).Gives p) (reads : ReadBy answers r p.tables)
      (reported : p.Reported s.toSession s.topic warnings q) : Single s warnings nested answers r q
  | totals {p t q} (plain : r.funnel = none) (planned : (s.plan nested r).Gives p) (reads : ReadBy answers r p.tables)
      (made : (s.totalsQuery p).Gives q) (totals : TotalsFor s.toSession p t)
      (tables : ∀ table ∈ q.tables, table ∈ p.tables ∨ s.TotalsTable warnings t table) : Single s warnings nested answers r q
  | funnel {spec f read q} (asked : r.funnel = some spec) (planned : (s.funnelPlan nested r spec).Gives (f, read))
      (reads : ReadBy answers r read) (made : (s.funnelQuery nested r spec).Gives q)
      (tables : ∀ table ∈ q.tables, table ∈ read ∨ s.FunnelTable warnings f table) : Single s warnings nested answers r q

section
variable (compiles : ∀ r, (nested r).Judged s.toSession.Inflated final (answers r))
include compiles

theorem planJudged (r : Request) : (s.plan nested r).Judged s.toSession.Inflated final fun p => ReadBy answers r p.tables := by
  refine judgedFound fun metrics _ => judgedFound fun dimensions _ => judgedFound fun _ _ => ?_
  refine judgedBind (bindAllReads compiles _ []) fun ⟨filters,tables⟩ => ?_
  refine judgedFound fun views _ => judgedFound fun always _ => judgedFound fun access _ => judgedFound fun order _ => ?_
  refine judgedPure fun reads t mem => ?_
  rcases reads t mem with known | ⟨inner,⟨c,listed,held⟩,answered⟩
  · exact absurd known not_mem_nil
  · exact ⟨inner,⟨c,mem_append_left _ listed,held⟩,answered⟩

end

theorem rowsReported {t : RunningTotal} {p : Plan} : (t.rowsQuery s p).Judged s.toSession.Inflated final fun query =>
    ∃ condition, (t.rowsPlan p condition).Reported s.toSession s.topic final query := by
  refine judgedThen ?_ fun condition => judgedMore (Plan.queryReported _) fun _ reported => ⟨condition,reported⟩
  cases t.metric.field.cumulativeWhere with
  | none => exact keepsPure
  | some template => exact keepsBind (Session.expandKeeps fun _ => Session.rowKeeps _) fun _ => keepsPure

def TotalMade (s : Scope) (warnings : List String) (p : Plan) (metric : FieldUse) (pair : RunningTotal × Tables) : Prop :=
  RunningTotal.ofMetric s.toSession metric = .ok pair.1 ∧ ∃ condition rows select,
    (pair.1.rowsPlan p condition).Reported s.toSession s.topic warnings rows ∧
    pair.1.totalsSelect s.toSession p.dimensions = .ok select ∧
    pair.2 = [(pair.1.rowsTable, rows),(pair.1.totalsTable, .ofSelect select)]

theorem totalJudged {p : Plan} {metric : FieldUse} : (do
    let total ← RunningTotal.ofMetric s.toSession metric
    return (total, ← total.tables s p) : Compile (RunningTotal × Tables)).Judged s.toSession.Inflated final
      (s.TotalMade final p metric) := by
  refine judgedFound fun total found => ?_
  rw [RunningTotal.tables,bind_assoc]
  refine judgedBind rowsReported fun rows => ?_
  rw [bind_assoc]
  refine judgedFound fun select selected => ?_
  rw [pure_bind]
  exact judgedPure fun ⟨condition,reported⟩ => ⟨found,condition,rows,select,reported,selected,rfl⟩

theorem baseJudged (t : TotalsPlan) : (t.baseTables s).Judged s.toSession.Inflated final fun tables =>
    ∀ table ∈ tables, s.TotalsTable final t table := by
  rw [TotalsPlan.baseTables]
  split
  · exact judgedPure (forall_mem_nil _)
  · exact judgedBind t.basePlan.queryReported fun query => judgedPure fun reported =>
      forall_mem_singleton.mpr (.base reported)

theorem totalTables {p : Plan} {metric pair} {t : TotalsPlan} (plan : t.plan = p) (mem : pair.1 ∈ t.totals)
    (made : s.TotalMade final p metric pair) : ∀ table ∈ pair.2, s.TotalsTable final t table := by
  obtain ⟨_,condition,rows,select,reported,selected,same⟩ := made
  rw [← plan] at reported selected
  rw [same]
  exact forall_mem_cons.mpr ⟨.rows mem reported,forall_mem_singleton.mpr (.totals mem selected)⟩

theorem totalsJudged (p : Plan) : (s.totalsQuery p).Judged s.toSession.Inflated final fun q =>
    ∃ t, TotalsFor s.toSession p t ∧ ∀ table ∈ q.tables, table ∈ p.tables ∨ s.TotalsTable final t table := by
  refine judgedFound fun _ _ => ?_
  have measured : Judged s.toSession.Inflated final
      ((wantedMeasures p).mapM fun u => (s.toSession.totalLeaves u : Compile (List FieldUse)))
      (List.Forall₂ (fun u leaves => s.toSession.totalLeaves u = .ok leaves) (wantedMeasures p)) :=
    judgedEach fun _ _ => judgedLift fun _ found => found
  refine judgedBind measured fun leaves => ?_
  cases spine : s.context.dialect.dateSpine? with
  | none =>
    simp only
    rw [failBind]
    exact judgedFail
  | some sql =>
    simp only [pure_bind]
    refine judgedBind (judgedEach fun _ _ => totalJudged) fun pairs => judgedBind (baseJudged _) fun base => ?_
    refine judgedFound fun source _ => judgedThen ?_ fun select => judgedFound fun order _ => judgedPure ?_
    · refine keepsBind (keepsEach fun _ _ => keepsBind keepsLift fun _ => keepsPure) fun _ => keepsBind ?_ fun _ => keepsPure
      exact Filter.sqlOfKeeps (fun _ => keepsLift) _
    · intro based made measures
      refine ⟨{ plan := p, totals := pairs.map Prod.fst, others := _ },⟨rfl,leaves,exceptMapM.mpr measures,?_,rfl⟩,
        fun table mem => ?_⟩
      · exact exceptMapM.mpr (forall₂_map_right_iff.mpr (made.imp fun _ _ => And.left))
      · rcases mem_append.mp mem with mem | own
        · rcases mem_append.mp mem with read | mem
          · exact .inl read
          · rcases mem_cons.mp mem with rfl | mem
            · exact .inr (.spine spine)
            · obtain ⟨tables,listed,mem⟩ := mem_flatten.mp mem
              obtain ⟨pair,known,rfl⟩ := mem_map.mp listed
              obtain ⟨metric,_,total⟩ := forallMember made.flip known
              exact .inr (totalTables (p := p) rfl (mem_map_of_mem known) total table mem)
        · exact .inr (based table own)

theorem stepsJudged {f : FunnelPlan} {n : Nat} {clauses : List (List Filter)} :
    (f.stepTables s.context n clauses).Judged s.toSession.Inflated final fun tables => ∀ table ∈ tables,
      ∃ e ∈ clauses.zipIdx n, ∃ select, (f.step s.context e.2 e.1).Gives select ∧
        table = (Funnel.stepTable e.2, .ofSelect select) := by
  induction clauses generalizing n with
  | nil => exact judgedPure (forall_mem_nil _)
  | cons filters rest ih =>
    have steps : (f.step s.context n filters).Keeps s.toSession.Inflated := by
      refine keepsBind (Filter.sqlOfKeeps (fun _ => keepsPure) filters) fun conditions => ?_
      split <;> exact keepsPure
    rw [FunnelPlan.stepTables]
    refine judgedBind (keepsGives steps) fun select => judgedBind ih fun others => judgedPure ?_
    intro later stepped
    refine forall_mem_cons.mpr ⟨⟨(filters, n),mem_cons_self,select,stepped,rfl⟩,fun table mem => ?_⟩
    obtain ⟨e,listed,made⟩ := later table mem
    exact ⟨e,mem_cons_of_mem _ listed,made⟩

section
variable (compiles : ∀ r, (nested r).Judged s.toSession.Inflated final (answers r))
include compiles

theorem funnelPlanJudged (r : Request) (spec : Funnel) :
    (s.funnelPlan nested r spec).Judged s.toSession.Inflated final fun made => ReadBy answers r made.2 := by
  refine judgedFound fun window _ => judgedFound fun interval _ => judgedBind (planJudged compiles _) fun plan => ?_
  split
  · exact judgedFail
  · refine judgedBind (bindAllReads compiles _ plan.tables) fun ⟨filters,tables⟩ => ?_
    simp only
    split
    · exact judgedFail
    · refine judgedFound fun date _ => judgedFound fun link _ => judgedThen (keepsEach fun c _ => ?_) fun steps => ?_
      · refine keepsBind (bindReads compiles c []).toKeeps fun ⟨filters,tables⟩ => ?_
        simp only
        split
        · exact keepsFail
        · split
          · exact keepsFail
          · exact keepsPure
      · refine judgedPure fun reads planned t mem => ?_
        rcases reads t mem with known | ⟨inner,⟨c,listed,held⟩,answered⟩
        · obtain ⟨inner,⟨c,listed,held⟩,answered⟩ := planned t known
          have asked : c ∈ r.filter.toList := by simpa [Request.clauses] using listed
          exact ⟨inner,⟨c,mem_append_left _ (mem_append_left _ asked),held⟩,answered⟩
        · exact ⟨inner,⟨c,mem_append_left _ (mem_append_right _ listed),held⟩,answered⟩

theorem funnelJudged {r : Request} {spec : Funnel} (asked : r.funnel = some spec) :
    (s.funnelQuery nested r spec).Judged s.toSession.Inflated final (s.Single final nested answers r) := by
  have judged : (s.funnelQuery nested r spec).Judged s.toSession.Inflated final fun q => ∃ f read,
      (s.funnelPlan nested r spec).Gives (f, read) ∧ ReadBy answers r read ∧
      ∀ table ∈ q.tables, table ∈ read ∨ s.FunnelTable final f table := by
    refine judgedBind (judgedGives (funnelPlanJudged compiles r spec)) fun ⟨f,read⟩ => ?_
    refine judgedBind (f.eventsPlan.queryReported) fun events => judgedBind stepsJudged fun steps => ?_
    have counted : Judged s.toSession.Inflated final
        ((List.range f.steps.length).mapM fun n => (f.counts s.toSession (n + 1) : Compile Select))
        (List.Forall₂ (fun n select => f.counts s.toSession (n + 1) = .ok select) (List.range f.steps.length)) :=
      judgedEach fun _ _ => judgedLift fun _ found => found
    refine judgedBind counted fun counts => judgedThen (Filter.sqlOfKeeps (fun _ => keepsPure) _) fun conditions => ?_
    refine judgedFound fun order _ => judgedPure ?_
    intro counted stepped reported ⟨planned,reads⟩
    refine ⟨f,read,planned,reads,fun table mem => ?_⟩
    rcases mem_append.mp mem with mem | last
    · rcases mem_append.mp mem with known | mem
      · exact .inl known
      · rcases mem_cons.mp mem with rfl | mem
        · exact .inr (.events reported)
        · obtain ⟨⟨filters,n⟩,listed,select,made,rfl⟩ := stepped table mem
          exact .inr (.step listed made)
    · cases mem_singleton.mp last
      exact .inr (.counts counted)
  refine judgedMore (judgedGives judged) fun q made => ?_
  obtain ⟨made,f,read,planned,reads,tables⟩ := made
  exact .funnel asked planned reads made tables

theorem singleJudged (r : Request) :
    (s.singleQuery nested r).Judged s.toSession.Inflated final (s.Single final nested answers r) := by
  rw [singleQuery]
  cases asked : r.funnel with
  | some spec => exact funnelJudged compiles asked
  | none =>
    refine judgedBind (judgedGives (planJudged compiles r)) fun p => judgedFound fun cumulative _ => ?_
    split
    · refine judgedMore (judgedGives (totalsJudged p)) fun q made plan => ?_
      obtain ⟨made,t,totals,tables⟩ := made
      exact .totals asked plan.1 plan.2 made totals tables
    · exact judgedMore p.queryReported fun q reported plan => .joined asked plan.1 plan.2 reported

end

structure PartsFor (s : Scope) (nested : Nested) (r : Request) (passed : List FilterItem) (parts : List MergePart) :
    Prop where
  placed : ∃ metrics dimensions filters having tables others groups,
    s.fields r.metrics = .ok metrics ∧ s.fields r.dimensions = .ok dimensions ∧
    ((s.splitItems nested r.filterItems).run []).Gives ((filters, passed), tables) ∧
    ((s.bindAll nested r.having.toList).run tables).Gives (having, others) ∧
    s.mergeGroups (metrics ++ (Filter.fieldsOf (filters ++ having)).filter FieldUse.isMeasure) = .ok groups ∧
    s.mergeParts groups dimensions = .ok parts

inductive Compiled (s : Scope) (warnings : List String) (nested : Nested) (answers : Request → Query → Prop) (r : Request) :
    Query → Prop
  | single {resolved merges q} (named : s.resolveNames r = .ok (resolved, merges))
      (single : s.Single warnings nested answers resolved q) : Compiled s warnings nested answers r q
  | merged {resolved merges passed parts q} (named : s.resolveNames r = .ok (resolved, merges))
      (made : (s.mergedResult nested resolved).Gives q) (placed : s.PartsFor nested resolved passed parts)
      (tables : ∀ t ∈ q.tables, (∃ inner, resolved.Holds inner ∧ answers inner t.2) ∨
        ∃ part ∈ parts, ∃ applied, s.PartAnswered nested resolved passed part t applied ∧
          s.Single warnings nested answers (partRequest resolved part (applied.filterMap id)) t.2) :
      Compiled s warnings nested answers r q

section
variable (compiles : ∀ r, (nested r).Judged s.toSession.Inflated final (answers r))
include compiles

theorem partJudged {r : Request} {passed : List FilterItem} {part : MergePart} :
    (s.partTable nested r passed part).Judged s.toSession.Inflated final fun t => ∃ applied,
      s.PartAnswered nested r passed part t applied ∧
        s.Single final nested answers (partRequest r part (applied.filterMap id)) t.2 := by
  have applies : Judged s.toSession.Inflated final
      (passed.mapM fun item => (s.itemIn part.toMergeGroup item : Compile (Option FilterItem)))
      (List.Forall₂ (fun item out => s.itemIn part.toMergeGroup item = .ok out) passed) :=
    judgedEach fun _ _ => judgedLift fun _ found => found
  refine judgedBind applies fun applied => judgedBind (judgedGives (singleJudged compiles _)) fun query => judgedPure ?_
  intro ⟨answered,single⟩ applies
  exact ⟨applied,⟨rfl,applies,answered⟩,single⟩

theorem mergedJudged {r resolved : Request} {merges : Bool} (named : s.resolveNames r = .ok (resolved, merges)) :
    (s.mergedResult nested resolved).Judged s.toSession.Inflated final (s.Compiled final nested answers r) := by
  have judged : (s.mergedResult nested resolved).Judged s.toSession.Inflated final fun q => ∃ passed parts,
      s.PartsFor nested resolved passed parts ∧
      ∀ t ∈ q.tables, (∃ inner, resolved.Holds inner ∧ answers inner t.2) ∨
        ∃ part ∈ parts, ∃ applied, s.PartAnswered nested resolved passed part t applied ∧
          s.Single final nested answers (partRequest resolved part (applied.filterMap id)) t.2 := by
    unfold mergedResult
    split
    · exact judgedFail
    · refine judgedFound fun metrics asked => judgedFound fun dimensions shown => ?_
      refine judgedBind (judgedGives (splitReads compiles _ [])) fun ⟨⟨filters,passed⟩,tables⟩ => ?_
      refine judgedBind (judgedGives (bindAllReads compiles _ tables)) fun ⟨having,others⟩ => ?_
      refine judgedFound fun groups grouped => ?_
      split
      · exact judgedFail
      · refine judgedFound fun parts placed => judgedBind (judgedEach fun _ _ => partJudged compiles) fun results => ?_
        refine judgedFound fun _ _ => judgedThen ?_ fun select => judgedFound fun order _ => ?_
        · unfold mergedSelect
          split
          · exact keepsFail
          · exact keepsBind keepsLift fun _ => keepsBind (Filter.sqlOfKeeps (fun _ => keepsLift) _) fun _ => keepsPure
        · refine judgedThen (keepsEach fun _ _ => keepsLift) fun keys => judgedPure ?_
          intro answered ⟨bound,more⟩ ⟨splits,first⟩
          refine ⟨passed,parts,⟨metrics,dimensions,filters,having,tables,others,groups,asked,shown,splits,bound,
            grouped,placed⟩,fun t mem => ?_⟩
          rcases mem_append.mp mem with read | part
          · rcases more t read with known | ⟨inner,⟨c,listed,held⟩,answers⟩
            · rcases first t known with none | ⟨inner,⟨item,listed,held⟩,answers⟩
              · exact absurd none not_mem_nil
              · exact .inl ⟨inner,Request.itemHeld listed held,answers⟩
            · exact .inl ⟨inner,⟨c,mem_append_left _ (mem_append_right _ listed),held⟩,answers⟩
          · exact .inr (forallMember answered.flip part)
  refine judgedMore (judgedGives judged) fun q made => ?_
  obtain ⟨made,passed,parts,placed,tables⟩ := made
  exact .merged named made placed tables

theorem compileJudged (r : Request) :
    (s.compileWith nested r).Judged s.toSession.Inflated final (s.Compiled final nested answers r) := by
  rw [compileSteps]
  refine judgedFound fun ⟨resolved,merges⟩ named => ?_
  simp only [compileResolved]
  split
  · exact mergedJudged compiles named
  · refine judgedBind (judgedAttempt (singleJudged compiles resolved)) fun outcome => ?_
    cases outcome with
    | ok query => exact judgedPure fun single => .single named (single query rfl)
    | error e =>
      simp only
      split
      · exact judgedMore (mergedJudged compiles named) fun _ merged _ => merged
      · exact judgedFail

end

def Composed (s : Scope) (warnings : List String) : Nat → Request → Query → Prop
  | 0, _, _ => False
  | n + 1, r, q => s.Compiled warnings (s.compile n) (s.Composed warnings n) r q

theorem composed (n : Nat) (r : Request) :
    (s.compile n r).Judged s.toSession.Inflated final (s.Composed final n r) := by
  induction n generalizing r with
  | zero => exact judgedFail
  | succ n ih => exact compileJudged ih r

inductive Answered (s : Scope) (warnings : List String) (r : Request) : Query → Prop
  | whole {q} (alone : r.mergedQueries = none) (composed : s.Composed warnings (r.depth + 1) r q) : Answered s warnings r q
  | listed {items queries q} (asked : r.mergedQueries = some items) (read : s.listedQueries r items = .ok queries)
      (made : (s.mergedQueries (s.compile (r.depth + 1)) r items).Gives q)
      (tables : ∀ t ∈ q.tables, (∃ query ∈ queries, t.1 = query.table ∧ s.Composed warnings (r.depth + 1) query.request t.2) ∨
        ∃ inner, r.Holds inner ∧ s.Composed warnings (r.depth + 1) inner t.2) : Answered s warnings r q

theorem listedJudged {r : Request} {items : List Value} (asked : r.mergedQueries = some items) :
    (s.mergedQueries (s.compile (r.depth + 1)) r items).Judged s.toSession.Inflated final (s.Answered final r) := by
  have judged : (s.mergedQueries (s.compile (r.depth + 1)) r items).Judged s.toSession.Inflated final fun q => ∃ queries,
      s.listedQueries r items = .ok queries ∧ ∀ t ∈ q.tables,
        (∃ query ∈ queries, t.1 = query.table ∧ s.Composed final (r.depth + 1) query.request t.2) ∨
        ∃ inner, r.Holds inner ∧ s.Composed final (r.depth + 1) inner t.2 := by
    refine judgedFound fun queries read => ?_
    have each : (queries.mapM fun q => (do return (q.table, ← s.compile (r.depth + 1) q.request) :
        Compile (String × Query))).Judged s.toSession.Inflated final
        (List.Forall₂ (fun q t => t.1 = q.table ∧ s.Composed final (r.depth + 1) q.request t.2) queries) :=
      judgedEach fun q _ => judgedBind (composed _ q.request) fun query => judgedPure fun composed => ⟨rfl,composed⟩
    refine judgedBind each fun results => judgedBind (bindAllReads (composed _) _ []) fun ⟨filters,tables⟩ => ?_
    refine judgedThen (Filter.sqlOfKeeps (fun _ => keepsLift) _) fun conditions => judgedFound fun order _ => judgedPure ?_
    intro reads compiled
    refine ⟨queries,read,fun t mem => ?_⟩
    rcases mem_append.mp mem with result | bound
    · exact .inl (forallMember compiled.flip result)
    · rcases reads t bound with none | ⟨inner,⟨c,listed,held⟩,composed⟩
      · exact absurd none not_mem_nil
      · exact .inr ⟨inner,⟨c,mem_append_left _ listed,held⟩,composed⟩
  refine judgedMore (judgedGives judged) fun q made => ?_
  obtain ⟨made,queries,read,tables⟩ := made
  exact .listed asked read made tables

theorem answerJudged (r : Request) : (s.answer r).Judged s.toSession.Inflated final (s.Answered final r) := by
  refine judgedFound fun _ _ => ?_
  cases asked : r.mergedQueries with
  | none => exact judgedMore (composed _ r) fun q composed => .whole asked composed
  | some items => exact listedJudged asked

end Scope

/- A sum, a count or an average that is plain although the rows of its view may be repeated is reported. -/
theorem Session.plainReported {s : Session} {repeated : NameSet} {warnings : List String} {u a sql value}
    (reported : s.Reported repeated warnings u sql) (additive : u.additive? = some a) (view : u.view.name ∈ repeated)
    (plain : sql = a.plain value) : (QueryError.symmetricInflated s.context.dialect u.id).message ∈ warnings := by
  cases reported with
  | symmetric kind _ _ _ _ _ form =>
    cases kind.symm.trans additive
    exact absurd plain (symmetricNotPlain form value)
  | plain _ outside _ => exact absurd view outside
  | inflated _ _ _ _ _ reported => exact reported
  | other none _ => cases none.symm.trans additive
  | formula number _ _ _ => simp [FieldUse.additive?,number] at additive

namespace Project

theorem inflatedAggregatesReported {p : Project} {r : Request} {now : DateTime} {c : SemanticSql.Compiled}
    (ok : p.compile r now = .ok c) : ∃ s, p.scopeFor r now = .ok s ∧ s.Answered c.warnings r c.query ∧
      (∀ repeated u a sql value, s.toSession.Reported repeated c.warnings u sql → u.additive? = some a →
        u.view.name ∈ repeated → sql = a.plain value →
        (QueryError.symmetricInflated s.context.dialect u.id).message ∈ c.warnings) ∧
      ∀ text ∈ c.warnings, s.toSession.Inflated text := by
  obtain ⟨s,found,ok⟩ := exceptBind.mp ok
  rcases ran : (s.answer r).run {} with ⟨result,progress⟩
  rw [ran] at ok
  obtain ⟨query,rfl,same⟩ := exceptBind.mp ok
  cases same
  have judged : (s.answer r).Judged s.toSession.Inflated progress.warnings (s.Answered progress.warnings r) :=
    Scope.answerJudged r
  refine ⟨s,found,judged.holds {} query progress ran (List.Subset.refl _),?_,fun text mem => ?_⟩
  · intro repeated u a sql value reported additive view plain
    exact Session.plainReported reported additive view plain
  · have added := judged.added {} text
    rw [ran] at added
    exact (added mem).resolve_left List.not_mem_nil

def druidRevenue : Request where
  metrics := ["orders.revenue"]
  dimensions := ["lines.sku"]
  dialect := some .druid

def newYear : DateTime := ⟨⟨2024,1,1⟩,0,0,0,0⟩

theorem druidRevenueReported : ∃ c s, lineScope.project.compile druidRevenue newYear = .ok c ∧
    lineScope.project.scopeFor druidRevenue newYear = .ok s ∧ s.Answered c.warnings druidRevenue c.query ∧
    c.query.body = .select {
      items := [.column "lines.sku" "sku",.column "SUM(orders.amount)" "revenue"]
      source := "db.lines lines"
      joins := [.on "LEFT JOIN" "db.orders orders" "lines.order_id=orders.id"]
      groups := ["lines.sku"] } ∧
    c.warnings = [(QueryError.symmetricInflated .druid "orders.revenue").message] := by
  have evaluated : (lineScope.project.compile druidRevenue newYear).toOption.map (fun c => (c.query.body, c.warnings)) =
      some (.select {
        items := [.column "lines.sku" "sku",.column "SUM(orders.amount)" "revenue"]
        source := "db.lines lines"
        joins := [.on "LEFT JOIN" "db.orders orders" "lines.order_id=orders.id"]
        groups := ["lines.sku"] }, [(QueryError.symmetricInflated .druid "orders.revenue").message]) := by decide +kernel
  obtain ⟨c,compiled,shown⟩ := Option.map_eq_some_iff.mp evaluated
  obtain ⟨body,warnings⟩ := Prod.mk.inj shown
  obtain ⟨s,found,answered,_⟩ := inflatedAggregatesReported (exceptSome.mp compiled)
  exact ⟨c,s,exceptSome.mp compiled,found,answered,body,warnings⟩

def zonedOrders : Definitions where
  views := [orderView]
  settings := some { timezone := some "America/New_York", now := some newYear }

def zonedProject : Project := { ofDefinitions zonedOrders with graph := { views := ["orders"], joins := [] } }

theorem zonedDefined : ofDefinitions zonedOrders = zonedProject := by
  have graph : JoinGraph.ofViews [orderView] = { views := ["orders"], joins := [] } :=
    (JoinGraph.ofViewsSorted (by decide)).trans (by decide +kernel)
  rw [zonedProject,← graph]
  rfl

def druidDays : Request where
  metrics := ["orders.revenue"]
  dimensions := ["orders.placed_date"]
  dialect := some .druid

theorem unconvertedTimeSilent :
    ¬ ∀ (d : Definitions) r now c s name u timezone, (ofDefinitions d).compile r now = .ok c →
      (ofDefinitions d).scopeFor r now = .ok s → name ∈ r.dimensions → s.field name = .ok u → u.field.role = .group →
      u.field.type = .time → s.context.timezone = some timezone →
      u.field.convertTimezone.getD s.context.convertsTimezone →
      (∀ sql, s.context.dialect.inTimezone? sql timezone u.field.datatype = none) → ∃ text, text ∈ c.warnings := by
  intro all
  have silent : (zonedProject.compile druidDays newYear).toOption.map Compiled.warnings = some [] := by decide +kernel
  obtain ⟨c,compiled,none⟩ := Option.map_eq_some_iff.mp silent
  have ok := exceptSome.mp compiled
  rw [← zonedDefined] at ok
  obtain ⟨text,mem⟩ := all zonedOrders druidDays newYear c _ "orders.placed_date"
    ⟨orderView,placedField,some (.time .date)⟩ "America/New_York" ok (by rw [zonedDefined]; rfl) List.mem_cons_self rfl rfl rfl
    rfl rfl fun _ => rfl
  rw [none] at mem
  exact absurd mem List.not_mem_nil

end Project

end SemanticSql
