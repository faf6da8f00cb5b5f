import SemanticSql.Proofs.GroupedAggregates
import Mathlib.Data.List.Nodup

/-! The tables of running totals, for the dimensions of a query in two orders. What a table of totals shows and what
it groups by are the same up to order. -/
namespace SemanticSql

open List Compile RunningTotal

namespace RunningTotal
variable {t : RunningTotal} {s : Session} {c : Context}

def shownSql (t : RunningTotal) (c : Context) (u : FieldUse) : String :=
  (t.frame? u).elim (t.rowsTable ++ "." ++ u.column) (truncated c spineDate)

def groupEntry (t : RunningTotal) (c : Context) (u : FieldUse) : String :=
  if c.dialect.groupsByAlias then u.column else t.shownSql c u

structure TotalsOf (t : RunningTotal) (s : Session) (dimensions : List FieldUse) (select : Select) : Prop where
  frames : ∀ u ∈ dimensions, ∀ frame ∈ t.frame? u, frame ∈ frames
  items : ∃ total, s.aggregateColumn t.measure (t.rowsTable ++ "." ++ t.measure.column) = .ok total ∧
    select.items = dimensions.map (fun u => .column (t.shownSql s.context u) u.column) ++ [.column total t.metric.column]
  source : select.source = dateSpine
  joins : select.joins = [.on "JOIN" t.rowsTable (t.range s.context (t.period? dimensions)).condition]
  conditions : select.conditions = (t.range s.context (t.period? dimensions)).days
  groups : select.groups = dimensions.map (t.groupEntry s.context)

theorem dimensionShown {u sql} (ok : t.dimensionSql c u = .ok sql) :
    sql = t.shownSql c u ∧ ∀ frame ∈ t.frame? u, frame ∈ frames := by
  unfold dimensionSql at ok
  unfold shownSql
  cases read : t.frame? u with
  | none =>
    simp only [read] at ok
    cases ok
    exact ⟨rfl,by simp⟩
  | some frame =>
    simp only [read] at ok
    split at ok
    · rename_i known
      cases ok
      refine ⟨rfl,fun other same => ?_⟩
      cases same
      exact contains_iff_mem.mp known
    · cases ok

theorem totalsOf {dimensions select} (ok : t.totalsSelect s dimensions = .ok select) :
    t.TotalsOf s dimensions select := by
  simp only [totalsSelect,exceptBind] at ok
  obtain ⟨columns,listed,total,aggregated,same⟩ := ok
  have each : List.Forall₂ (fun u column => (t.shownSql s.context u, u.column) = column ∧
      ∀ frame ∈ t.frame? u, frame ∈ frames) dimensions columns := by
    refine (exceptMapM.mp listed).imp fun u column made => ?_
    obtain ⟨sql,read,pair⟩ := exceptBind.mp made
    obtain ⟨rfl,known⟩ := dimensionShown read
    exact ⟨Except.ok.inj pair,known⟩
  have shown : dimensions.map (fun u => (t.shownSql s.context u, u.column)) = columns := by
    rw [forallMap each fun u column made => made.1,map_id']
  cases Except.ok.inj same
  cases shown
  refine ⟨fun u mem => ?_,⟨total,aggregated,by simp⟩,rfl,rfl,rfl,by simp [groupEntry]⟩
  obtain ⟨_,_,_,known⟩ := forallMember each mem
  exact known

def dayFrames : List TimeFrame := [.raw,.time,.date]

def periodFrames : List TimeFrame := [.week,.month,.quarter,.year]

theorem dayRange {frame} (day : frame ∈ dayFrames) : t.range c (some frame) =
    ⟨t.rowsTable ++ "." ++ t.day.column ++ "<=" ++ spineDate,[spineDate ++ "<=" ++ c.dialect.currentDate]⟩ := by
  simp only [dayFrames,mem_cons,not_mem_nil,or_false] at day
  rcases day with rfl | rfl | rfl <;> rfl

theorem periodRange {frame} (period : frame ∈ periodFrames) : t.range c (some frame) =
    ⟨truncated c (t.rowsTable ++ "." ++ t.day.column) frame ++ "<=" ++ spineDate,
      [spineDate ++ "<=" ++ c.dialect.currentDate,spineDate ++ "=" ++ truncated c spineDate frame]⟩ := by
  simp only [periodFrames,mem_cons,not_mem_nil,or_false] at period
  rcases period with rfl | rfl | rfl | rfl <;> rfl

theorem periodsApart (c : Context) {f g} (left : f ∈ periodFrames) (right : g ∈ periodFrames)
    (same : truncated c spineDate f = truncated c spineDate g) : f = g := by
  have apart : (periodFrames.map (truncated c spineDate)).Nodup := by
    unfold truncated
    generalize c.dialect = d, c.weekStart = w
    cases d <;> cases w <;> decide +kernel
  exact inj_on_of_nodup_map apart left right same

def SamePeriod (f g : TimeFrame) : Prop := f = g ∨ f ∈ dayFrames ∧ g ∈ dayFrames

theorem rangesSame {f g} (left : f ∈ frames) (right : g ∈ frames) :
    t.range c (some f) = t.range c (some g) ↔ SamePeriod f g := by
  have split {frame} (known : frame ∈ frames) : frame ∈ dayFrames ∨ frame ∈ periodFrames :=
    mem_append.mp known
  constructor
  · intro same
    rcases split left with day | period <;> rcases split right with day' | period'
    · exact .inr ⟨day,day'⟩
    · simp [dayRange day,periodRange period'] at same
    · simp [dayRange day',periodRange period] at same
    · rw [periodRange period,periodRange period'] at same
      simp at same
      exact .inl (periodsApart c period period' same.2)
  · rintro (rfl | ⟨day,day'⟩)
    · rfl
    · rw [dayRange day,dayRange day']

section
variable {dimensions reordered : List FieldUse} {left right : Select}

theorem rangesEqual (ofLeft : t.TotalsOf s dimensions left) (ofRight : t.TotalsOf s reordered right) :
    left.joins = right.joins ∧ left.conditions = right.conditions ↔
      t.range s.context (t.period? dimensions) = t.range s.context (t.period? reordered) := by
  rw [ofLeft.joins,ofRight.joins,ofLeft.conditions,ofRight.conditions]
  cases t.range s.context (t.period? dimensions)
  cases t.range s.context (t.period? reordered)
  simp

theorem periodFrame (totals : t.TotalsOf s dimensions left) {frame} (period : frame ∈ t.period? dimensions) :
    frame ∈ frames := by
  obtain ⟨u,mem,read⟩ := exists_of_findSome?_eq_some period
  exact totals.frames u mem frame read

/- Whether there is a date does not depend on the order, but its period may. -/
theorem periodsNone (perm : dimensions.Perm reordered) : t.period? dimensions = none ↔ t.period? reordered = none := by
  simp only [period?,findSome?_eq_none_iff,perm.mem_iff]

theorem rangesReordered (perm : dimensions.Perm reordered) (ofLeft : t.TotalsOf s dimensions left)
    (ofRight : t.TotalsOf s reordered right) : left.joins = right.joins ∧ left.conditions = right.conditions ↔
      ∀ f ∈ t.period? dimensions, ∀ g ∈ t.period? reordered, SamePeriod f g := by
  rw [rangesEqual ofLeft ofRight]
  -- The first date decides, so the two orders can only differ if both have one.
  cases first : t.period? dimensions with
  | none => simp [(periodsNone perm).mp first]
  | some f =>
    cases second : t.period? reordered with
    | none => simp [(periodsNone perm).mpr second] at first
    | some g => simp [rangesSame (periodFrame ofLeft first) (periodFrame ofRight second)]

theorem listsReordered (perm : dimensions.Perm reordered) (ofLeft : t.TotalsOf s dimensions left)
    (ofRight : t.TotalsOf s reordered right) : left.items.Perm right.items ∧ left.groups.Perm right.groups := by
  obtain ⟨total,aggregated,items⟩ := ofLeft.items
  obtain ⟨_,again,items'⟩ := ofRight.items
  cases Except.ok.inj (aggregated.symm.trans again)
  rw [items,items',ofLeft.groups,ofRight.groups]
  exact ⟨(perm.map _).append_right _,perm.map _⟩

end

end RunningTotal

namespace Scope
variable {s : Scope} {p : Plan}

structure TotalsTables (s : Scope) (p : Plan) (q : Query) (totals : List RunningTotal) : Prop where
  metrics : ∃ leaves, (wantedMeasures p).mapM s.toSession.totalLeaves = .ok leaves ∧
    (Session.addUses [] (leaves.flatten.filter fun u => u.field.isCumulative)).mapM (ofMetric s.toSession) =
      .ok totals
  rows : ∀ t ∈ totals, ∃ rows before after, (t.rowsQuery s p).Returns before rows after ∧ (t.rowsTable, rows) ∈ q.tables
  totals : ∀ t ∈ totals, ∃ select, t.totalsSelect s.toSession p.dimensions = .ok select ∧
    (t.totalsTable, .ofSelect select) ∈ q.tables

theorem totalMade {metric before} {pair : RunningTotal × Tables} {after}
    (ok : (do let total ← ofMetric s.toSession metric
              return (total, ← total.tables s p) : Compile _).Returns before pair after) :
    ofMetric s.toSession metric = .ok pair.1 ∧ ∃ rows select,
      (∃ before after, (pair.1.rowsQuery s p).Returns before rows after) ∧
      pair.1.totalsSelect s.toSession p.dimensions = .ok select ∧
      pair.2 = [(pair.1.rowsTable, rows),(pair.1.totalsTable, .ofSelect select)] := by
  simp only [tables,returnsBind,returnsLift,returnsPure] at ok
  obtain ⟨total,_,⟨found,_⟩,tables,_,⟨rows,_,ran,select,_,⟨selected,_⟩,rfl,_⟩,rfl,_⟩ := ok
  exact ⟨found,rows,select,⟨_,_,ran⟩,selected,rfl⟩

theorem totalsTables {before q after} (ok : (s.totalsQuery p).Returns before q after) :
    ∃ totals, s.TotalsTables p q totals := by
  simp only [totalsQuery,returnsBind,returnsLift] at ok
  obtain ⟨_,_,_,leaves,_,measured,ok⟩ := ok
  cases spine : s.context.dialect.dateSpine? with
  | none =>
    simp only [spine,returnsBind] at ok
    obtain ⟨_,_,refused,_⟩ := ok
    exact absurd refused returnsFail
  | some sql =>
    simp only [spine,returnsBind,returnsPure,returnsLift] at ok
    obtain ⟨_,_,_,pairs,_,made,base,_,_,_,_,_,select,_,_,_,_,_,rfl,_⟩ := ok
    have measures := returnsEach measured fun u _ _ found _ made => (returnsLift.mp made).1
    have each := returnsEach made fun metric _ before pair after step => totalMade step
    have own {total} (mem : total ∈ pairs.map Prod.fst) : ∃ rows select,
        (∃ before after, (total.rowsQuery s p).Returns before rows after) ∧
        total.totalsSelect s.toSession p.dimensions = .ok select ∧
        ∀ table ∈ [(total.rowsTable, rows),(total.totalsTable, .ofSelect select)], table ∈ (pairs.map Prod.snd).flatten := by
      obtain ⟨pair,listed,rfl⟩ := mem_map.mp mem
      obtain ⟨metric,_,_,rows,select,ran,selected,tables⟩ := forallMember each.flip listed
      exact ⟨rows,select,ran,selected,fun table known =>
        mem_flatten.mpr ⟨pair.2,mem_map_of_mem listed,tables ▸ known⟩⟩
    refine ⟨pairs.map Prod.fst,⟨leaves,exceptMapM.mpr measures,?_⟩,fun total mem => ?_,fun total mem => ?_⟩
    · exact exceptMapM.mpr (forall₂_map_right_iff.mpr (each.imp fun _ _ => And.left))
    · obtain ⟨rows,select,⟨_,_,ran⟩,_,listed⟩ := own mem
      exact ⟨rows,_,_,ran,by simp [Query.tables,listed]⟩
    · obtain ⟨rows,select,_,selected,listed⟩ := own mem
      exact ⟨select,selected,by simp [Query.tables,listed]⟩

theorem totalsReordered {dimensions before q after before' q' after'} (perm : p.dimensions.Perm dimensions)
    (ok : (s.totalsQuery p).Returns before q after)
    (ok' : (s.totalsQuery { p with dimensions }).Returns before' q' after') :
    ∃ totals, s.TotalsTables p q totals ∧ s.TotalsTables { p with dimensions } q' totals ∧
      ∀ t ∈ totals, ∀ left right, t.totalsSelect s.toSession p.dimensions = .ok left →
        t.totalsSelect s.toSession dimensions = .ok right →
        left.source = right.source ∧ left.items.Perm right.items ∧ left.groups.Perm right.groups ∧
        (left.joins = right.joins ∧ left.conditions = right.conditions ↔
          ∀ f ∈ t.period? p.dimensions, ∀ g ∈ t.period? dimensions, RunningTotal.SamePeriod f g) := by
  obtain ⟨totals,tables⟩ := totalsTables ok
  obtain ⟨others,tables'⟩ := totalsTables ok'
  obtain ⟨leaves,found,made⟩ := tables.metrics
  obtain ⟨_,found',made'⟩ := tables'.metrics
  cases Except.ok.inj (found.symm.trans found')
  cases Except.ok.inj (made.symm.trans made')
  refine ⟨totals,tables,tables',fun t _ left right selected selected' => ?_⟩
  have ofLeft := RunningTotal.totalsOf selected
  have ofRight := RunningTotal.totalsOf selected'
  obtain ⟨items,groups⟩ := RunningTotal.listsReordered perm ofLeft ofRight
  exact ⟨ofLeft.source.trans ofRight.source.symm,items,groups,RunningTotal.rangesReordered perm ofLeft ofRight⟩

def placedAt (frame : TimeFrame) : FieldUse := ⟨orderView,SemanticSql.placedField,some (.time frame)⟩

def totalBy (dimensions : List FieldUse) : Plan where
  metrics := [⟨orderView,totalField,none⟩]
  dimensions

theorem totalOnly {dimensions q totals} (tables : lineScope.TotalsTables (totalBy dimensions) q totals) :
    totals = [revenueTotal] := by
  obtain ⟨leaves,found,made⟩ := tables.metrics
  have leaf : (wantedMeasures (totalBy dimensions)).mapM lineScope.toSession.totalLeaves =
    .ok [[⟨orderView,totalField,none⟩]] := rfl
  cases Except.ok.inj (leaf.symm.trans found)
  have only : (Session.addUses [] ([[⟨orderView,totalField,none⟩]].flatten.filter fun u => u.field.isCumulative)).mapM
    (ofMetric lineScope.toSession) = .ok [revenueTotal] := rfl
  exact (Except.ok.inj (only.symm.trans made)).symm

theorem monthAndSkuReordered :
    ∃ q after q' after' left right,
      (lineScope.totalsQuery (totalBy [placedAt .month,⟨lineView,skuField,none⟩])).Returns {} q after ∧
      (lineScope.totalsQuery (totalBy [⟨lineView,skuField,none⟩,placedAt .month])).Returns {} q' after' ∧
      (revenueTotal.totalsTable, .ofSelect left) ∈ q.tables ∧ (revenueTotal.totalsTable, .ofSelect right) ∈ q'.tables ∧
      left.joins = right.joins ∧ left.conditions = right.conditions := by
  have first : (Compile.ran? (lineScope.totalsQuery (totalBy [placedAt .month,⟨lineView,skuField,none⟩]))).isSome := by
    decide +kernel
  have second : (Compile.ran? (lineScope.totalsQuery (totalBy [⟨lineView,skuField,none⟩,placedAt .month]))).isSome := by
    decide +kernel
  obtain ⟨q,after,ran⟩ := Compile.ranSome first
  obtain ⟨q',after',ran'⟩ := Compile.ranSome second
  obtain ⟨totals,tables,tables',same⟩ := totalsReordered (.swap ..) ran ran'
  cases totalOnly tables
  obtain ⟨left,selected,listed⟩ := tables.totals _ List.mem_cons_self
  obtain ⟨right,selected',listed'⟩ := tables'.totals _ List.mem_cons_self
  obtain ⟨_,_,_,ranges⟩ := same _ List.mem_cons_self left right selected selected'
  refine ⟨q,after,q',after',left,right,ran,ran',listed,listed',ranges.mpr fun f first g second => ?_⟩
  exact .inl (Option.some.inj (first.symm.trans second))

theorem monthBeforeDay :
    ¬ ∀ (s : Scope) (p : Plan) dimensions before q after before' q' after' metric (t : RunningTotal) (left right : Select),
      p.dimensions.Perm dimensions → (s.totalsQuery p).Returns before q after →
      (s.totalsQuery { p with dimensions }).Returns before' q' after' → metric ∈ p.metrics →
      RunningTotal.ofMetric s.toSession metric = .ok t → (t.totalsTable, .ofSelect left) ∈ q.tables →
      (t.totalsTable, .ofSelect right) ∈ q'.tables →
      left.joins = right.joins ∧ left.conditions = right.conditions ∧ left.items.Perm right.items ∧
        left.groups.Perm right.groups := by
  intro all
  have shown : ((Compile.ran? (lineScope.totalsQuery (totalBy [placedAt .date,placedAt .month]))).bind fun q =>
      (q.selectOf? revenueTotal.totalsTable).map Select.conditions) =
    some ["date_spine.date<=current_date()"] := by decide +kernel
  have shown' : ((Compile.ran? (lineScope.totalsQuery (totalBy [placedAt .month,placedAt .date]))).bind fun q =>
      (q.selectOf? revenueTotal.totalsTable).map Select.conditions) =
    some ["date_spine.date<=current_date()","date_spine.date=DATE_TRUNC('MONTH', date_spine.date)"] := by decide +kernel
  obtain ⟨q,result,found⟩ := Option.bind_eq_some_iff.mp shown
  obtain ⟨left,table,conditions⟩ := Option.map_eq_some_iff.mp found
  obtain ⟨after,ran⟩ := Compile.ranReturns result
  obtain ⟨q',result',found'⟩ := Option.bind_eq_some_iff.mp shown'
  obtain ⟨right,table',conditions'⟩ := Option.map_eq_some_iff.mp found'
  obtain ⟨after',ran'⟩ := Compile.ranReturns result'
  have same := (all _ _ _ _ _ _ _ _ _ _ revenueTotal left right (.swap ..) ran ran' List.mem_cons_self rfl
    (selectOfMember table) (selectOfMember table')).2.1
  rw [conditions,conditions'] at same
  exact absurd same (by decide)

end Scope

end SemanticSql
