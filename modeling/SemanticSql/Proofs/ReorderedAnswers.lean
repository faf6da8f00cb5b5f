import SemanticSql.MergedQueries
import SemanticSql.Proofs.ReorderedPlans

/-! Running totals, funnels and merged results under another order of the views: each is made of plans, look-ups and
expansions that are alike. -/
namespace SemanticSql

open Session

section Totals
variable {s : Scope} {views : List View} (h : Reorders s.project.views views)
include h

theorem RunningTotal.ofMetricReordered (metric : FieldUse) :
    Alike (ofMetric s.toSession metric) (ofMetric (s.listing views).toSession metric) := by
  rw [ofMetric,ofMetric]
  cases metric.field.measure with
  | none => exact .refl _
  | some name =>
    refine .bind (Project.fieldFromReordered h metric.view name) fun measure => bothBranches (.refl _) ?_
    exact .lead (Project.canonDateReordered h _)

theorem RunningTotal.rowsQueryReordered (t : RunningTotal) (p : Plan) :
    Compile.Alike (t.rowsQuery s p) (t.rowsQuery (s.listing views) p) := by
  have expanded := expandReordered h t.metric.view t.metric.id
  refine .bind (Compile.Alike.along.optionM expanded t.metric.field.cumulativeWhere) fun condition => ?_
  exact Plan.queryReordered h s.topic (t.rowsPlan p condition)

theorem RunningTotal.tablesReordered (t : RunningTotal) (p : Plan) :
    Compile.Alike (t.tables s p) (t.tables (s.listing views) p) :=
  .lead (rowsQueryReordered h t p)

theorem Session.isCumulativeReordered (u : FieldUse) :
    Alike (s.toSession.isCumulative u) ((s.listing views).toSession.isCumulative u) :=
  bothBranches (.refl _) (bothBranches (.lead (measureLeavesReordered h u)) (.refl _))

namespace TotalsPlan
variable (t : TotalsPlan) (source : String)

theorem columnReordered (u : FieldUse) :
    Alike (t.column s.toSession source u) (t.column (s.listing views).toSession source u) := by
  rw [column,column,Scope.fuelSame h]
  exact readFromReordered h _ _ _ u

theorem sortKeysReordered :
    Alike (t.sortKeys s.context.dialect (t.column s.toSession source))
      (t.sortKeys s.context.dialect (t.column (s.listing views).toSession source)) := by
  refine bothBranches (.refl _) (Alike.along.mapM (fun o => bothBranches (.refl _) ?_) _)
  exact .lead (columnReordered h t source o.u)

theorem selectReordered :
    Compile.Alike (t.select s.toSession source) (t.select (s.listing views).toSession source) := by
  have columns (u : FieldUse) : Compile.Alike _ _ := .lift (columnReordered h t source u)
  refine .bind (Compile.Alike.along.mapM (fun u => .lead (columns u)) _) fun items => ?_
  exact .lead (Filter.sqlOfAlike columns s.context t.plan.having)

end TotalsPlan

theorem Scope.totalsQueryReordered (p : Plan) : Compile.Alike (s.totalsQuery p) ((s.listing views).totalsQuery p) := by
  have total (metric : FieldUse) := Compile.Alike.bind (.lift (RunningTotal.ofMetricReordered h metric)) fun t =>
    .bind (RunningTotal.tablesReordered h t p) fun tables => .refl (pure (t, tables))
  have context : (s.listing views).context = s.context := rfl
  rw [totalsQuery,totalsQuery,context]
  refine .bind (.refl _) fun _ => ?_
  refine .bind (Compile.Alike.along.mapM (fun u => .lift (.bind (isCumulativeReordered h u) fun _ =>
    bothBranches (measureLeavesReordered h u) (.refl _))) _) fun leaves => ?_
  cases s.context.dialect.dateSpine? with
  | none => exact .failed _ _ _
  | some sql =>
    refine .bind (.refl _) fun spine => .bind (Compile.Alike.along.mapM total _) fun totals => ?_
    refine .bind (bothBranches (.refl _)
    (.lead (Plan.queryReordered h s.topic _))) fun base => .bind (.refl _) fun source => ?_
    refine .bind (TotalsPlan.selectReordered h _ source) fun select => ?_
    exact .lead (.lift (TotalsPlan.sortKeysReordered h _ source))

end Totals

namespace Scope
variable {s : Scope} {views : List View} (h : Reorders s.project.views views)
include h

section Funnels

theorem eventDateReordered (known : Option FieldUse) (metrics : List FieldUse) :
    Alike (s.eventDate known metrics) ((s.listing views).eventDate known metrics) := by
  induction metrics generalizing known with
  | nil => exact .refl _
  | cons metric rest ih =>
    rw [eventDate,eventDate]
    cases metric.view.defaultDate with
    | none => exact ih known
    | some name =>
      refine .bind (Project.fieldFromReordered h metric.view name) fun date => ?_
      cases known with
      | none => exact ih (some date)
      | some first => exact bothBranches (ih _) (.refl _)

theorem linkAmongSame (missing : Error) (names : List String) :
    (s.listing views).linkAmong missing names = s.linkAmong missing names := by
  induction names with
  | nil => rfl
  | cons name rest ih => rw [linkAmong,linkAmong,viewSame h,ih]

theorem linkFieldSame (metrics : List FieldUse) : (s.listing views).linkField metrics = s.linkField metrics := by
  cases metrics with
  | nil => rfl
  | cons first rest =>
    rw [linkField,linkField]
    cases linkIn? first.view with
    | some link => rfl
    | none => exact linkAmongSame h _ _

variable {nested other : Nested} (requests : nested.Alike other)
include requests

theorem funnelPlanReordered (r : Request) (f : Funnel) :
    Compile.Alike (s.funnelPlan nested r f) ((s.listing views).funnelPlan other r f) := by
  refine .bind (.refl _) fun window => .bind (.refl _) fun interval => ?_
  refine .bind (planReordered h requests _) fun plan => bothBranches (.refl _) ?_
  refine .bind (bindAllReordered h requests r.having.toList plan.tables) fun bound => ?_
  obtain ⟨filters,tables⟩ := bound
  dsimp only
  generalize List.find? _ (addUses plan.metrics _) = unfit
  cases unfit with
  | some u => exact .refl _
  | none =>
    refine .bind (.lift (eventDateReordered h none _)) fun date => ?_
    rw [linkFieldSame h]
    refine .bind (.refl _) fun link => ?_
    exact .lead (Compile.Alike.along.mapM (fun clause => .lead (bindReordered h requests clause [])) f.steps)

theorem funnelQueryReordered (r : Request) (f : Funnel) :
    Compile.Alike (s.funnelQuery nested r f) ((s.listing views).funnelQuery other r f) := by
  refine .bind (funnelPlanReordered h requests r f) fun plan => ?_
  refine .bind (Plan.queryReordered h s.topic _) fun events => .bind (.refl _) fun steps => ?_
  refine .bind (.refl _) fun counts => .bind (.refl _) fun conditions => ?_
  exact .lead (.lift (orderReordered h r))

theorem singleQueryReordered (r : Request) :
    Compile.Alike (s.singleQuery nested r) ((s.listing views).singleQuery other r) := by
  rw [singleQuery,singleQuery]
  cases r.funnel with
  | some funnel => exact funnelQueryReordered h requests r funnel
  | none =>
    refine .bind (planReordered h requests r) fun plan => ?_
    have cumulative := Alike.along.anyM (isCumulativeReordered h) plan.metrics
    exact .bind (.lift cumulative) fun _ =>
      bothBranches (totalsQueryReordered h plan) (Plan.queryReordered h s.topic plan)

end Funnels

section Merged

theorem mergedFromReordered (n : Nat) (u : FieldUse) : Alike (s.mergedFrom n u) ((s.listing views).mergedFrom n u) := by
  induction n generalizing u with
  | zero => exact .refl _
  | succ n ih =>
    rw [mergedFrom,mergedFrom]
    refine bothBranches (.bind (referencedFieldsReordered h u) fun references => ?_) (.refl _)
    exact .lead (Alike.along.mapM ih references)

theorem mergeGroupsReordered (metrics : List FieldUse) :
    Alike (s.mergeGroups metrics) ((s.listing views).mergeGroups metrics) := by
  rw [mergeGroups,mergeGroups,fuelSame h]
  refine Alike.along.foldlM (fun groups u => .bind (mergedFromReordered h _ u) fun found => ?_) metrics []
  exact Alike.along.foldlM (fun _ metric => .lead (Project.canonDateReordered h metric)) found groups

variable (g : MergeGroup)

theorem firstInReordered (u : FieldUse) (names : List String) :
    Alike (s.firstIn g u names) ((s.listing views).firstIn g u names) := by
  induction names with
  | nil => exact .refl _
  | cons name rest ih => exact .bind (Project.fieldReordered h name) fun _ => bothBranches (.refl _) ih

theorem inGroupReordered (u : FieldUse) : Alike (s.inGroup? g u) ((s.listing views).inGroup? g u) := by
  have mapped : (s.listing views).project.mappingOf? (s.listing views).model u.id =
    s.project.mappingOf? s.model u.id := rfl
  rw [inGroup?,inGroup?,mapped]
  refine bothBranches (.refl _) ?_
  cases s.project.mappingOf? s.model u.id with
  | none => exact .refl _
  | some found => exact firstInReordered h g u found.2.fields

theorem dimensionInReordered (dates : List String) (g : MergeGroup) (u : FieldUse) :
    Alike (s.dimensionIn dates g u) ((s.listing views).dimensionIn dates g u) := by
  have own := inGroupReordered h g u
  rw [dimensionIn,dimensionIn]
  cases g.date with
  | none => exact .bind own fun _ => .refl _
  | some date =>
    cases dates.contains u.id && Grain.isTime u.grain with
    | true => exact .refl _
    | false => exact .bind own fun _ => .refl _

theorem mergePartsReordered (groups : Dict MergeGroup) (dimensions : List FieldUse) :
    Alike (s.mergeParts groups dimensions) ((s.listing views).mergeParts groups dimensions) := by
  refine Alike.along.mapM (fun entry => ?_) groups
  exact .lead (Alike.along.mapM (dimensionInReordered h _ entry.2) dimensions)

omit h in
mutual

theorem specInReordered (h : Reorders s.project.views views) (g : MergeGroup) (f : FilterSpec) :
    Alike (s.specIn g f) ((s.listing views).specIn g f) := by
  cases f with
  | group conditions connective =>
    rw [specIn,specIn]
    exact .lead (specsInReordered h g conditions)
  | condition field expression value =>
    rw [specIn,specIn]
    exact .bind (Project.fieldReordered h field) fun u => .lead (inGroupReordered h g u)

theorem specsInReordered (h : Reorders s.project.views views) (g : MergeGroup) (fs : List FilterSpec) :
    Alike (s.specsIn g fs) ((s.listing views).specsIn g fs) := by
  cases fs with
  | nil =>
    rw [specsIn,specsIn]
    exact .refl _
  | cons f rest =>
    rw [specsIn,specsIn]
    refine .bind (specInReordered h g f) fun first => ?_
    cases first with
    | none => exact .refl _
    | some first => exact .lead (specsInReordered h g rest)

end

theorem allInReordered (uses : List FieldUse) : Alike (s.allIn g uses) ((s.listing views).allIn g uses) := by
  induction uses with
  | nil => exact .refl _
  | cons u rest ih =>
    refine .bind (inGroupReordered h g u) fun found => ?_
    cases found with
    | some v => exact bothBranches ih (.refl _)
    | none => exact .refl _

theorem itemFieldsReordered (item : FilterItem) :
    Alike (item.fields s.project) (item.fields (s.listing views).project) := by
  cases item with
  | text sql => exact .lead (Filter.bindLiteralReordered h sql)
  | spec filter => exact Alike.along.mapM (Project.fieldReordered h) _

theorem itemInReordered (item : FilterItem) : Alike (s.itemIn g item) ((s.listing views).itemIn g item) := by
  cases item with
  | text sql =>
    refine .bind (itemFieldsReordered h (.text sql)) fun fields => ?_
    exact .lead (allInReordered h g fields)
  | spec filter => exact .lead (specInReordered h g filter)

variable (parts : List MergePart)

theorem checkAppliedReordered (items : List FilterItem) :
    Alike (s.checkApplied parts items) ((s.listing views).checkApplied parts items) := by
  induction items with
  | nil => exact .refl _
  | cons item rest ih =>
    refine .bind (Alike.along.mapM (fun part => itemInReordered h part.toMergeGroup item) parts) fun applied => ?_
    exact bothBranches ih (.lead (itemFieldsReordered h item))

theorem mergedColumnReordered (u : FieldUse) :
    Alike (s.mergedColumn parts u) ((s.listing views).mergedColumn parts u) := by
  rw [mergedColumn,mergedColumn,fuelSame h]
  exact readFromReordered h _ _ _ u

theorem mergedItemsReordered (metrics dimensions : List FieldUse) :
    Alike (s.mergedItems parts metrics dimensions) ((s.listing views).mergedItems parts metrics dimensions) := by
  refine .bind (Alike.along.mapM (fun u => .lead (mergedColumnReordered h parts u)) _) fun own => ?_
  refine .lead (Alike.along.mapM (fun u => ?_) _)
  exact .lead (formulaOverReordered h (mergedColumnReordered h parts) u)

theorem mergedSelectReordered (metrics dimensions : List FieldUse) (outer : List Filter) :
    Compile.Alike (s.mergedSelect parts metrics dimensions outer)
      ((s.listing views).mergedSelect parts metrics dimensions outer) := by
  cases parts with
  | nil => exact .refl _
  | cons first others =>
    have columns (u : FieldUse) : Compile.Alike _ _ := .lift (mergedColumnReordered h (first :: others) u)
    refine .bind (.lift (mergedItemsReordered h (first :: others) metrics dimensions)) fun items => ?_
    exact .lead (Filter.sqlOfAlike columns s.context outer)

variable {nested other : Nested} (requests : nested.Alike other)
include requests

theorem partTableReordered (r : Request) (items : List FilterItem) (part : MergePart) :
    Compile.Alike (s.partTable nested r items part) ((s.listing views).partTable other r items part) := by
  refine .bind (Compile.Alike.along.mapM (fun item => .lift (itemInReordered h _ item)) items) fun applied => ?_
  exact .lead (singleQueryReordered h requests _)

theorem splitItemsReordered (items : List FilterItem) :
    Binding.Alike (s.splitItems nested items) ((s.listing views).splitItems other items) := by
  induction items with
  | nil => exact .refl _
  | cons item rest ih =>
    refine .bind (.except (itemFieldsReordered h item)) fun fields => bothBranches ?_ ?_
    · exact .bind (bindReordered h requests item.clause) fun _ => .bind ih fun _ => .refl _
    · exact .bind ih fun _ => .refl _

theorem mergedResultReordered (r : Request) :
    Compile.Alike (s.mergedResult nested r) ((s.listing views).mergedResult other r) := by
  refine bothBranches (.refl _) (.bind (.lift (fieldsReordered h r.metrics)) fun metrics => ?_)
  refine .bind (.lift (fieldsReordered h r.dimensions)) fun dimensions => ?_
  refine .bind (splitItemsReordered h requests _ []) fun split => ?_
  obtain ⟨⟨filters,passed⟩,tables⟩ := split
  refine .bind (bindAllReordered h requests r.having.toList tables) fun bound => ?_
  obtain ⟨having,tables⟩ := bound
  refine .bind (.lift (mergeGroupsReordered h _)) fun groups => bothBranches (.refl _) ?_
  refine .bind (.lift (mergePartsReordered h groups dimensions)) fun parts => ?_
  refine .bind (Compile.Alike.along.mapM (partTableReordered h requests r passed) parts) fun results => ?_
  refine .bind (.lift (checkAppliedReordered h parts passed)) fun _ => ?_
  refine .bind (mergedSelectReordered h parts metrics dimensions _) fun select => ?_
  exact .lead (.lift (orderReordered h r))

end Merged

end Scope
end SemanticSql
