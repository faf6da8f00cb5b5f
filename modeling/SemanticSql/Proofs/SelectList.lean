import SemanticSql.Proofs.MergedColumns
import SemanticSql.Proofs.QueryParts

/-! The select list of a query. -/
namespace SemanticSql

open List Compile Session

theorem forallAppend {α β : Type} {R : α → β → Prop} {xs more : List α} {ys} (all : List.Forall₂ R (xs ++ more) ys) :
    ∃ first rest, ys = first ++ rest ∧ List.Forall₂ R xs first ∧ List.Forall₂ R more rest :=
  ⟨ys.take xs.length,ys.drop xs.length,(take_append_drop _ _).symm,
    (forall₂_take_append _ _ _ all.flip).flip,(forall₂_drop_append _ _ _ all.flip).flip⟩

theorem FieldUse.sameColumn {u v : FieldUse} (same : u.same v) : u.column = v.column := by
  simp only [FieldUse.same,FieldUse.sameField,Bool.and_eq_true,beq_iff_eq] at same
  obtain ⟨⟨_,name⟩,grain⟩ := same
  rw [FieldUse.column,FieldUse.column,grain]
  unfold Field.aliasAt
  rw [name]

structure Adds (known more added : List FieldUse) : Prop where
  apart : added.Pairwise fun u v => u.same v = false
  fresh : ∀ v ∈ added, ∀ u ∈ known, u.same v = false
  source : added.Sublist more
  covers : ∀ u ∈ more, ∃ v ∈ known ++ added, v.same u

variable {known more added uses : List FieldUse}

theorem addsKnown {u} (adds : Adds known more added)
    (there : ∃ v ∈ known ++ added, v.same u) : Adds known (more ++ [u]) added where
  apart := adds.apart
  fresh := adds.fresh
  source := adds.source.trans (sublist_append_left _ _)
  covers := forall_mem_append.mpr ⟨adds.covers,forall_mem_singleton.mpr there⟩

theorem addsNew {u} (adds : Adds known more added)
    (new : ∀ v ∈ known ++ added, v.same u = false) : Adds known (more ++ [u]) (added ++ [u]) where
  apart := by
    refine pairwise_append.mpr ⟨adds.apart,pairwise_singleton _ _,fun v mem w last => ?_⟩
    exact mem_singleton.mp last ▸ new v (mem_append_right _ mem)
  fresh := by
    refine forall_mem_append.mpr ⟨adds.fresh,forall_mem_singleton.mpr fun v mem => ?_⟩
    exact new v (mem_append_left _ mem)
  source := adds.source.append_right [u]
  covers := by
    refine forall_mem_append.mpr ⟨fun v mem => ?_,forall_mem_singleton.mpr ⟨u,by simp,u.sameSelf⟩⟩
    obtain ⟨w,inside,same⟩ := adds.covers v mem
    exact ⟨w,by rw [← append_assoc]; exact mem_append_left _ inside,same⟩

theorem addUsesAdds (known more : List FieldUse) :
    ∃ added, addUses known more = known ++ added ∧ Adds known more added := by
  induction more using List.reverseRecOn with
  | nil => exact ⟨[],(append_nil known).symm,⟨.nil,forall_mem_nil _,.slnil,forall_mem_nil _⟩⟩
  | append_singleton more u ih =>
    obtain ⟨added,before,adds⟩ := ih
    have step : addUses known (more ++ [u]) = addUse (known ++ added) u := by
      rw [← before]
      exact foldl_concat _ _ _ _
    by_cases there : ∃ v ∈ known ++ added, v.same u
    · refine ⟨added,?_,addsKnown adds there⟩
      rw [step,addUse,if_pos (any_eq_true.mpr there)]
    · refine ⟨added ++ [u],?_,addsNew adds fun v mem => Bool.eq_false_iff.mpr fun same => there ⟨v,mem,same⟩⟩
      rw [step,addUse,if_neg fun any => there (any_eq_true.mp any),append_assoc]

def useNames (uses : List FieldUse) : List String := uses.map FieldUse.column

theorem addedNames (adds : Adds known more added) {name} :
    name ∈ useNames (known ++ added) ↔ name ∈ useNames known ∨ name ∈ useNames more := by
  rw [useNames,map_append,mem_append]
  constructor
  · rintro (old | new)
    · exact .inl old
    · exact .inr (adds.source.map _ |>.subset new)
  · rintro (old | new)
    · exact .inl old
    · obtain ⟨u,mem,rfl⟩ := mem_map.mp new
      obtain ⟨v,inside,same⟩ := adds.covers u mem
      rw [← mem_append,← map_append]
      exact mem_map.mpr ⟨v,inside,FieldUse.sameColumn same⟩

def addNamed (uses : List FieldUse) (u : FieldUse) : List FieldUse :=
  if u.column ∈ useNames uses then uses else uses ++ [u]

theorem addNamedDistinct {u} (distinct : (useNames uses).Nodup) : (useNames (addNamed uses u)).Nodup := by
  unfold addNamed
  split
  · exact distinct
  · rename_i new
    rw [useNames,map_append,← useNames]
    exact List.Nodup.append distinct (nodup_singleton _) (disjoint_singleton.mpr new)

theorem addNamedNames {u name} : name ∈ useNames (addNamed uses u) ↔ name ∈ useNames uses ∨ name = u.column := by
  unfold addNamed
  split
  · rename_i there
    exact ⟨.inl,fun known => known.elim id fun same => same ▸ there⟩
  · simp [useNames]

theorem namedDistinct (more : List FieldUse) (distinct : (useNames known).Nodup) :
    (useNames (more.foldl addNamed known)).Nodup := by
  induction more generalizing known with
  | nil => exact distinct
  | cons u rest ih => exact ih (addNamedDistinct distinct)

theorem namedAll {name} :
    name ∈ useNames (more.foldl addNamed known) ↔ name ∈ useNames known ∨ name ∈ useNames more := by
  induction more generalizing known with
  | nil => simp [useNames]
  | cons u rest ih =>
    rw [foldl_cons,ih,addNamedNames,or_assoc]
    simp [useNames]

/- As long as no name comes twice, names tell fields apart as well as sameness does. -/
theorem namedUses (distinct : (useNames (addUses known more)).Nodup) :
    more.foldl addNamed known = addUses known more := by
  induction more generalizing known with
  | nil => rfl
  | cons u rest ih =>
    have step : addNamed known u = addUse known u := by
      by_cases there : ∃ v ∈ known, v.same u
      · obtain ⟨v,mem,same⟩ := there
        have named : u.column ∈ useNames known := mem_map.mpr ⟨v,mem,FieldUse.sameColumn same⟩
        rw [addNamed,if_pos named,addUse,if_pos (any_eq_true.mpr ⟨v,mem,same⟩)]
      · have new : addUse known u = known ++ [u] := if_neg fun any => there (any_eq_true.mp any)
        obtain ⟨added,whole,_⟩ := addUsesAdds (known ++ [u]) rest
        have unfolded : addUses known (u :: rest) = addUses (known ++ [u]) rest := by rw [← new]; rfl
        rw [unfolded,whole,useNames,map_append,map_append] at distinct
        have apart := (nodup_append.mp (nodup_append.mp distinct).1).2.2
        rw [new,addNamed,if_neg]
        exact fun named => apart _ named _ (by simp) rfl
    rw [foldl_cons,step]
    exact ih distinct

theorem checkedNames {seen : List String} (ok : checkNames seen uses = .ok ()) :
    (useNames uses).Nodup ∧ ∀ u ∈ uses, u.column ∉ seen := by
  induction uses generalizing seen with
  | nil => exact ⟨nodup_nil,forall_mem_nil _⟩
  | cons u rest ih =>
    rw [checkNames] at ok
    split at ok
    · cases ok
    · rename_i new
      obtain ⟨distinct,fresh⟩ := ih ok
      refine ⟨nodup_cons.mpr ⟨fun again => ?_,distinct⟩,forall_mem_cons.mpr ⟨by simpa using new,?_⟩⟩
      · obtain ⟨v,mem,same⟩ := mem_map.mp again
        exact fresh v mem (same ▸ mem_cons_self)
      · exact fun v mem known => fresh v mem (mem_cons_of_mem _ known)

theorem Plan.checkedNames {p : Plan} (ok : p.check = .ok ()) : (useNames (p.dimensions ++ p.metrics)).Nodup := by
  rw [Plan.check] at ok
  split at ok
  · cases ok
  · split at ok
    · cases ok
    · split at ok
      · cases ok
      · exact (SemanticSql.checkedNames ok).1

namespace Layout
variable {l : Layout} {columns shown : List Column} {before after : Progress}

def Displays (sql : FieldUse → Compile String) (u : FieldUse) (c : Column) : Prop :=
  c.2 = u.column ∧ ∃ before after, (sql u).Returns before c.1 after

theorem displayedNames {sql uses} (all : List.Forall₂ (Displays sql) uses columns) :
    columnNames columns = useNames uses :=
  (forallMap all fun _ _ shown => shown.1.symm).symm

theorem rowsDisplayed {uses : List FieldUse} (ok : (uses.mapM l.rowColumn).Returns before columns after) :
    List.Forall₂ (Displays l.toSession.rowSql) uses columns :=
  returnsEach ok fun u _ before c after made => by
    simp only [rowColumn,returnsBind,returnsPure] at made
    obtain ⟨sql,_,read,rfl,_⟩ := made
    exact ⟨rfl,_,_,read⟩

theorem addedDisplayed {known uses : List FieldUse} (all : List.Forall₂ (Displays l.toSession.rowSql) known columns)
    (ok : (l.addRowColumns columns uses).Returns before shown after) :
    List.Forall₂ (Displays l.toSession.rowSql) (uses.foldl addNamed known) shown := by
  induction uses generalizing known columns before with
  | nil =>
    obtain ⟨rfl,_⟩ := returnsPure.mp ok
    exact all
  | cons u rest ih =>
    rw [addRowColumns,foldlM_cons,returnsBind] at ok
    obtain ⟨next,_,first,later⟩ := ok
    have names := displayedNames all
    have known' : (columns.any fun c => c.2 == u.column) ↔ u.column ∈ useNames known := by
      rw [← names]
      simp [columnNames]
    refine ih ?_ later
    unfold addNamed
    split at first
    · rename_i there
      obtain ⟨rfl,_⟩ := returnsPure.mp first
      rw [if_pos (known'.mp there)]
      exact all
    · rename_i new
      simp only [returnsBind,returnsPure] at first
      obtain ⟨c,_,made,rfl,_⟩ := first
      simp only [rowColumn,returnsBind,returnsPure] at made
      obtain ⟨sql,_,read,rfl,_⟩ := made
      rw [if_neg fun there => new (known'.mpr there)]
      exact rel_append all (.cons ⟨rfl,_,_,read⟩ .nil)

theorem leavesDisplayed {known metrics : List FieldUse} (all : List.Forall₂ (Displays l.toSession.rowSql) known columns)
    (ok : (metrics.foldlM (m := Compile) (fun columns u => do
      l.addRowColumns columns (← l.toSession.measureLeaves u)) columns).Returns before shown after) :
    ∃ leaves, metrics.mapM l.toSession.measureLeaves = .ok leaves ∧
      List.Forall₂ (Displays l.toSession.rowSql) (leaves.flatten.foldl addNamed known) shown := by
  induction metrics generalizing known columns before with
  | nil =>
    obtain ⟨rfl,_⟩ := returnsPure.mp ok
    exact ⟨[],rfl,all⟩
  | cons u rest ih =>
    simp only [foldlM_cons,returnsBind,returnsLift] at ok
    obtain ⟨next,_,⟨leaves,_,⟨found,rfl⟩,added⟩,later⟩ := ok
    obtain ⟨others,more,shows⟩ := ih (addedDisplayed all added) later
    refine ⟨leaves :: others,exceptMapM.mpr (.cons found (exceptMapM.mp more)),?_⟩
    rw [flatten_cons,foldl_append]
    exact shows

inductive Others (l : Layout) (lifted : List Filter) : List FieldUse → Prop
  | groups {hidden} (grouped : l.plan.isUngrouped = false)
      (adds : Adds l.plan.metrics ((Filter.fieldsOf lifted).filter FieldUse.isWindowMeasure) hidden) :
      Others l lifted (l.plan.metrics ++ hidden)
  | rows {leaves others} (ungrouped : l.plan.isUngrouped)
      (found : l.plan.metrics.mapM l.toSession.measureLeaves = .ok leaves)
      (adds : Adds l.plan.dimensions leaves.flatten others) : Others l lifted others

def Lists (l : Layout) (others : List FieldUse) (columns : List Column) : Prop :=
  ∃ first rest, columns = first ++ rest ∧ List.Forall₂ (Displays l.toSession.rowSql) l.plan.dimensions first ∧
    List.Forall₂ (Displays (if l.plan.isUngrouped then l.toSession.rowSql else l.column)) others rest

theorem listedNames {others} (lists : l.Lists others columns) :
    columnNames columns = useNames (l.plan.dimensions ++ others) := by
  obtain ⟨first,rest,rfl,dimensions,measures⟩ := lists
  rw [columnNames,map_append,← columnNames,← columnNames,displayedNames dimensions,displayedNames measures,
    useNames,useNames,useNames,map_append]

theorem hiddenAdds (lifted : List Filter) :
    Adds l.plan.metrics ((Filter.fieldsOf lifted).filter FieldUse.isWindowMeasure) (l.hiddenMetrics lifted) := by
  obtain ⟨added,whole,adds⟩ := addUsesAdds l.plan.metrics ((Filter.fieldsOf lifted).filter FieldUse.isWindowMeasure)
  rw [hiddenMetrics,whole,drop_left]
  exact adds

theorem groupedLists {lifted} (grouped : l.plan.isUngrouped = false)
    (ok : (l.columns (l.hiddenMetrics lifted)).Returns before columns after) :
    l.Lists (l.plan.metrics ++ l.hiddenMetrics lifted) columns := by
  simp only [Layout.columns,grouped,Bool.false_eq_true,if_false,returnsBind,returnsPure] at ok
  obtain ⟨dimensions,_,rows,measures,_,aggregated,rfl,_⟩ := ok
  refine ⟨dimensions,measures,rfl,rowsDisplayed rows,returnsEach aggregated ?_⟩
  intro u _ before c after made
  simp only [returnsBind,returnsPure] at made
  obtain ⟨sql,_,read,rfl,_⟩ := made
  rw [if_neg (by simp [grouped])]
  exact ⟨rfl,_,_,read⟩

theorem rowsShown {hidden} (ungrouped : l.plan.isUngrouped) (ok : (l.columns hidden).Returns before columns after) :
    ∃ leaves, l.plan.metrics.mapM l.toSession.measureLeaves = .ok leaves ∧
      List.Forall₂ (Displays l.toSession.rowSql) (leaves.flatten.foldl addNamed l.plan.dimensions) columns := by
  simp only [Layout.columns,ungrouped,if_true,returnsBind] at ok
  obtain ⟨dimensions,_,rows,ok⟩ := ok
  exact leavesDisplayed (rowsDisplayed rows) ok

structure SelectList (l : Layout) (others : List FieldUse) (columns : List Column) : Prop where
  checked : (useNames (l.plan.dimensions ++ l.plan.metrics)).Nodup
  exact : l.Lists others columns ∧ (columnNames columns).Nodup ↔ (useNames (l.plan.dimensions ++ others)).Nodup
  groups : l.plan.isUngrouped = false → l.Lists others columns
  rows : l.plan.isUngrouped →
    (columnNames columns).Nodup ∧ ∀ name, name ∈ columnNames columns ↔ name ∈ useNames (l.plan.dimensions ++ others)

theorem groupedSelectList {lifted} (checked : (useNames (l.plan.dimensions ++ l.plan.metrics)).Nodup)
    (grouped : l.plan.isUngrouped = false) (ok : (l.columns (l.hiddenMetrics lifted)).Returns before columns after) :
    l.SelectList (l.plan.metrics ++ l.hiddenMetrics lifted) columns := by
  have lists := groupedLists grouped ok
  have names := listedNames lists
  refine ⟨checked,⟨fun listed => names ▸ listed.2,fun distinct => ⟨lists,names ▸ distinct⟩⟩,fun _ => lists,?_⟩
  intro rows
  rw [grouped] at rows
  cases rows

theorem rowSelectList {hidden} (checked : (useNames (l.plan.dimensions ++ l.plan.metrics)).Nodup)
    (ungrouped : l.plan.isUngrouped) (ok : (l.columns hidden).Returns before columns after) :
    ∃ leaves others, l.plan.metrics.mapM l.toSession.measureLeaves = .ok leaves ∧
      Adds l.plan.dimensions leaves.flatten others ∧ l.SelectList others columns := by
  obtain ⟨leaves,found,all⟩ := rowsShown ungrouped ok
  obtain ⟨others,whole,adds⟩ := addUsesAdds l.plan.dimensions leaves.flatten
  have names := displayedNames all
  have dimensions : (useNames l.plan.dimensions).Nodup := by
    rw [useNames,map_append] at checked
    exact (nodup_append.mp checked).1
  have distinct : (columnNames columns).Nodup := names ▸ namedDistinct _ dimensions
  refine ⟨leaves,others,found,adds,?_⟩
  constructor
  · exact checked
  · refine ⟨fun listed => listedNames listed.1 ▸ listed.2,fun apart => ⟨?_,distinct⟩⟩
    rw [namedUses (whole ▸ apart),whole] at all
    obtain ⟨first,rest,parts,rows,measures⟩ := forallAppend all
    exact ⟨first,rest,parts,rows,by rwa [if_pos ungrouped]⟩
  · intro grouped
    rw [ungrouped] at grouped
    cases grouped
  · refine fun _ => ⟨distinct,fun name => ?_⟩
    rw [names,namedAll,addedNames adds]

theorem queryChecked {q} (ok : l.query.Returns before q after) : l.plan.check = .ok () := by
  simp only [query,returnsBind,returnsLift] at ok
  obtain ⟨_,_,⟨checked,_⟩,_⟩ := ok
  exact checked

theorem selectListExact {q} (ok : l.query.Returns before q after) :
    ∃ split columns select order others, Built l q split columns select order ∧ l.Others split.lifted others ∧
      l.SelectList others columns := by
  have checked := Plan.checkedNames (queryChecked ok)
  obtain ⟨split,columns,select,order,built⟩ := queryBuilt ok
  obtain ⟨_,_,shows⟩ := built.shows
  cases grouping : l.plan.isUngrouped with
  | false =>
    exact ⟨split,columns,select,order,_,built,.groups grouping (hiddenAdds split.lifted),
      groupedSelectList checked grouping shows⟩
  | true =>
    obtain ⟨leaves,others,found,adds,list⟩ := rowSelectList checked grouping shows
    exact ⟨split,columns,select,order,others,built,.rows grouping found adds,list⟩

def ordersAmount : Field := .ofAggregate "amount" .sum "$\x7bTABLE\x7d.amount"

def gapField : Field := .ofAggregate "gap" .number "$\x7bamount\x7d - $\x7btargets.amount\x7d"

def ordersRank : Field := .ofAggregate "rank" .number "rank() over (order by $\x7bamount\x7d)"

def targetsAmount : Field := .ofAggregate "amount" .max "$\x7bTABLE\x7d.amount"

def targetsRank : Field := .ofAggregate "rank" .max "$\x7bTABLE\x7d.rank"

def keyField : Field := { name := "id", sql := some "$\x7bTABLE\x7d.id", primaryKey := true }

def areaField : Field := { name := "region", sql := some "$\x7bTABLE\x7d.region" }

def rankedOrders : View where
  name := "orders"
  tableName := some "db.orders"
  fields := [keyField,areaField,ordersAmount,gapField,ordersRank]
  identifiers := [.ofSql "target_id" .foreign "$\x7bTABLE\x7d.target_id"]

def rankedTargets : View where
  name := "targets"
  tableName := some "db.targets"
  fields := [keyField,targetsAmount,targetsRank]
  identifiers := [.ofSql "target_id" .primary "$\x7bTABLE\x7d.id"]

def targetGraph : JoinGraph where
  views := ["orders","targets"]
  joins := [{
    base := "orders", target := "targets", relationship := .manyToOne, condition := "orders.target_id=targets.id" }]

theorem targetViewsGraph : JoinGraph.ofViews [rankedOrders,rankedTargets] = targetGraph :=
  (JoinGraph.ofViewsSorted (by decide)).trans (by decide +kernel)

def targetSession : Session where
  project := { Project.ofDefinitions { views := [rankedOrders,rankedTargets] } with graph := targetGraph }
  context := { dialect := .snowflake, now := ⟨⟨2024,1,1⟩,0,0,0,0⟩ }

theorem targetProject : targetSession.project = .ofDefinitions { views := [rankedOrders,rankedTargets] } := by
  rw [targetSession,← targetViewsGraph]
  rfl

def gapByOrder : Plan where
  metrics := [⟨rankedOrders,gapField,none⟩]
  dimensions := [⟨rankedOrders,keyField,none⟩]

def lowRank : Filter := .condition ⟨rankedOrders,ordersRank,none⟩ (.compare .less) (some (.int 3))

def targetsOfFirst : Plan where
  metrics := [⟨rankedTargets,targetsRank,none⟩]
  dimensions := [⟨rankedOrders,areaField,none⟩]
  having := [lowRank]

theorem planRuns (s : Session) (topic : Option Topic) (p : Plan) (check : Query → Bool)
    (ran : (ran? (p.query s topic)).any check) :
    ∃ joins before q after, (query { toSession := s, plan := p, joins }).Returns before q after ∧ check q := by
  obtain ⟨q,result,checked⟩ := (Option.any_eq_true ..).mp ran
  obtain ⟨after,ok⟩ := ranReturns result
  obtain ⟨joins,before,_,ok⟩ := returnsBind.mp ok
  exact ⟨joins,before,q,after,ok,checked⟩

theorem gapLeaves : gapByOrder.metrics.mapM targetSession.measureLeaves =
    .ok [[⟨rankedOrders,ordersAmount,none⟩,⟨rankedTargets,targetsAmount,none⟩]] := by rfl

theorem namesClash :
    (¬ ∀ (d : Definitions) (l : Layout) before q after split columns select order others,
      l.project = .ofDefinitions d → l.query.Returns before q after → Built l q split columns select order →
      l.Others split.lifted others → l.Lists others columns) ∧
    ¬ ∀ (d : Definitions) (l : Layout) before q after split columns select order,
      l.project = .ofDefinitions d → l.query.Returns before q after → Built l q split columns select order →
      (columnNames columns).Nodup := by
  constructor
  · intro all
    obtain ⟨joins,before,q,after,ok,_⟩ :=
      planRuns targetSession none gapByOrder (fun _ => true) (by decide +kernel)
    obtain ⟨split,columns,select,order,built⟩ := queryBuilt ok
    obtain ⟨_,_,shows⟩ := built.shows
    obtain ⟨others,whole,adds⟩ := addUsesAdds gapByOrder.dimensions
      [⟨rankedOrders,ordersAmount,none⟩,⟨rankedTargets,targetsAmount,none⟩]
    have lists := all _ _ _ _ _ _ _ _ _ others targetProject ok built (.rows rfl gapLeaves adds)
    obtain ⟨_,_,_,_,list⟩ := rowSelectList (Plan.checkedNames (queryChecked ok)) rfl shows
    have distinct := (list.rows rfl).1
    rw [listedNames lists,← whole] at distinct
    exact absurd distinct (by decide)
  · intro all
    obtain ⟨joins,before,q,after,ok,_⟩ :=
      planRuns targetSession none targetsOfFirst (fun _ => true) (by decide +kernel)
    obtain ⟨split,columns,select,order,built⟩ := queryBuilt ok
    obtain ⟨_,_,shows⟩ := built.shows
    have distinct := all _ _ _ _ _ _ _ _ _ targetProject ok built
    have lifts : Filter.liftWindows targetsOfFirst.having = .ok ⟨[],[lowRank]⟩ := by rfl
    cases lifts.symm.trans built.lifts
    rw [listedNames (groupedLists rfl shows)] at distinct
    have names : ["region","rank","rank"].Nodup := distinct
    exact absurd names (by decide)

def profitPlan : Plan where
  metrics := [Scope.profitUse]
  dimensions := [Scope.orderIdUse]

def profitLeaves : List FieldUse := [
  ⟨Scope.costView,.ofAggregate "revenue" .sum "$\x7bTABLE\x7d.revenue",none⟩,
  ⟨Scope.costView,.ofAggregate "cost" .sum "$\x7bTABLE\x7d.cost",none⟩]

theorem profitLeavesListed :
    ∃ joins before q after split columns select order,
      (query ⟨Scope.costScope.toSession,profitPlan,joins⟩).Returns before q after ∧
      Built ⟨Scope.costScope.toSession,profitPlan,joins⟩ q split columns select order ∧
      (∃ others, Lists ⟨Scope.costScope.toSession,profitPlan,joins⟩ others columns) ∧
      columnNames columns = ["id","revenue","cost"] := by
  obtain ⟨joins,before,q,after,ok,_⟩ :=
    planRuns Scope.costScope.toSession none profitPlan (fun _ => true) (by decide +kernel)
  obtain ⟨split,columns,select,order,others,built,shown,list⟩ := selectListExact ok
  have leaves : profitPlan.metrics.mapM Scope.costScope.toSession.measureLeaves = .ok [profitLeaves] := by rfl
  have all : useNames others = ["revenue","cost"] := by
    cases shown with
    | groups grouped _ => cases grouped
    | rows _ found adds =>
      cases leaves.symm.trans found
      have few : (useNames others).Sublist ["revenue","cost"] := adds.source.map FieldUse.column
      have full : ["revenue","cost"] ⊆ useNames others := fun name mem => by
        have shown : name ∈ "id" :: useNames others := (addedNames adds).mpr (.inr mem)
        exact (List.mem_cons.mp shown).resolve_left fun same => absurd (same ▸ mem) (by decide)
      exact few.eq_of_length_le (List.Nodup.subperm (by decide) full).length_le
  have names : useNames (profitPlan.dimensions ++ others) = ["id","revenue","cost"] := by
    rw [useNames,List.map_append,← useNames,← useNames,all]
    rfl
  have lists := (list.exact.mpr (by rw [names]; decide)).1
  have shows := (listedNames lists).trans names
  exact ⟨joins,before,q,after,split,columns,select,order,ok,built,⟨others,lists⟩,shows⟩

end Layout
end SemanticSql
