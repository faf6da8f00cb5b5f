import SemanticSql.Proofs.SelectList
import SemanticSql.Proofs.SelectRows
import SemanticSql.Proofs.TotalsOrder
import Mathlib.Order.Monotone.Defs

/-! Running totals by week, month, quarter or year. A period is stood for by its first day, and a row counts on it if
the period of the row is not later. -/
namespace SemanticSql

open List TableColumn

structure Truncation (V : Type) [LinearOrder V] where
  first : V → V
  monotone : Monotone first
  idempotent : ∀ day, first (first day) = first day
  notAfter : ∀ day, first day ≤ day

/- Periods that begin up to the day `start`, which is one, have all days up to the last of its own period. -/
theorem Truncation.untilEnd {V : Type} [LinearOrder V] (cut : Truncation V) {start : V} (own : cut.first start = start)
    (day : V) : cut.first day ≤ start ↔ ∃ last, cut.first last = start ∧ day ≤ last := by
  constructor
  · intro reached
    rcases le_or_gt day start with early | late
    · exact ⟨start,own,early⟩
    · -- A later day whose period is not later is in the same period.
      have same : start ≤ cut.first day := own ▸ cut.monotone late.le
      exact ⟨day,le_antisymm reached same,le_rfl⟩
  · rintro ⟨last,same,early⟩
    exact same ▸ cut.monotone early

theorem flatMapFilter {α β : Type} {f : α → List β} (wanted : α → Bool) (others : ∀ x, ¬ wanted x → f x = [])
    (xs : List α) : xs.flatMap f = (xs.filter wanted).flatMap f := by
  induction xs with
  | nil => rfl
  | cons x rest ih =>
    by_cases known : wanted x
    · rw [filter_cons_of_pos known,flatMap_cons,flatMap_cons,ih]
    · rw [filter_cons_of_neg known,flatMap_cons,others x known,nil_append,ih]

namespace RunningTotal

def spineColumn : TableColumn := ⟨dateSpine,"date"⟩

def dayColumn (t : RunningTotal) : TableColumn := ⟨t.rowsTable,t.day.column⟩

theorem spineApart (t : RunningTotal) : t.rowsTable ≠ dateSpine := by
  intro same
  have letters := congrArg (fun s => s.toList.head?) same
  simp [rowsTable,dateSpine] at letters

section
variable {V : Type} {t : RunningTotal} {s : Session} {dimensions : List FieldUse} {frame : TimeFrame} {select : Select}

def onDay (t : RunningTotal) (date row : ResultRow V) : JoinedRow (ResultRow V) :=
  Function.update (Results.alone dateSpine date) t.rowsTable (some row)

theorem onDayRow (date row : ResultRow V) : t.onDay date row t.rowsTable = some row := Function.update_self ..

theorem onDayDate (date row : ResultRow V) : t.onDay date row dateSpine = some date := by
  rw [onDay,Function.update_of_ne (spineApart t).symm,Results.alone,Function.update_self]

def keyOf (t : RunningTotal) (dimensions : List FieldUse) (start : V) (values : FieldUse → Option V) : List (Option V) :=
  dimensions.map fun u => (t.frame? u).elim (values u) fun _ => some start

theorem keysSame (only : dimensions.filterMap t.frame? = [frame]) {x y : V} {v w : FieldUse → Option V} :
    t.keyOf dimensions x v = t.keyOf dimensions y w ↔ (∀ u ∈ dimensions, t.frame? u = none → v u = w u) ∧ x = y := by
  have dated : ∃ u ∈ dimensions, t.frame? u = some frame := by simp [← mem_filterMap,only]
  rw [keyOf,keyOf,map_inj_left]
  constructor
  · intro same
    obtain ⟨date,listed,read⟩ := dated
    refine ⟨fun u mem plain => ?_,?_⟩
    · simpa [plain] using same u mem
    · simpa [read] using same date listed
  · rintro ⟨same,rfl⟩ u mem
    cases read : t.frame? u with
    | none => exact same u mem read
    | some g => rfl

theorem findNamed {sql : FieldUse → String} {others : List SelectItem} (distinct : (useNames dimensions).Nodup) {u}
    (mem : u ∈ dimensions) : (dimensions.map (fun u => SelectItem.column (sql u) u.column) ++ others).findSome?
      (SelectItem.sqlAs? u.column) = some (sql u) := by
  induction dimensions with
  | nil => contradiction
  | cons first rest ih =>
    obtain ⟨new,distinct⟩ := nodup_cons.mp distinct
    rw [map_cons,cons_append,findSome?_cons]
    rcases mem_cons.mp mem with rfl | later
    · simp [SelectItem.sqlAs?]
    · have other : first.column ≠ u.column := fun same => new (mem_map.mpr ⟨u,later,same.symm⟩)
      simpa [SelectItem.sqlAs?,other] using ih distinct later

theorem groupedShown (totals : t.TotalsOf s dimensions select) (distinct : (useNames dimensions).Nodup) {u}
    (mem : u ∈ dimensions) : select.groupSql s.context.dialect (t.groupEntry s.context u) = t.shownSql s.context u := by
  obtain ⟨total,_,items⟩ := totals.items
  rw [Select.groupSql,groupEntry,items]
  split
  · rw [findNamed distinct mem,Option.getD_some]
  · rfl

structure ByPeriod (t : RunningTotal) (s : Session) (dimensions : List FieldUse) (frame : TimeFrame) (select : Select) :
    Prop where
  totals : t.TotalsOf s dimensions select
  named : (useNames dimensions).Nodup
  only : dimensions.filterMap t.frame? = [frame]
  long : frame ∈ periodFrames

theorem periodOnly (only : dimensions.filterMap t.frame? = [frame]) : t.period? dimensions = some frame := by
  rw [period?,← head?_filterMap,only,head?_cons]

theorem frameOnly (only : dimensions.filterMap t.frame? = [frame]) {u} (mem : u ∈ dimensions) {g}
    (read : t.frame? u = some g) : g = frame := by
  have listed : g ∈ dimensions.filterMap t.frame? := mem_filterMap.mpr ⟨u,mem,read⟩
  rwa [only,mem_singleton] at listed

theorem joinOnly (table : t.ByPeriod s dimensions frame select) :
    select.joins = [.on "JOIN" t.rowsTable (truncated s.context t.dayColumn.sql frame ++ "<=" ++ spineDate)] := by
  rw [table.totals.joins,periodOnly table.only,periodRange table.long]
  rfl

end

section
variable {V : Type} [LinearOrder V]

structure ReadBy (t : RunningTotal) (c : Context) (dimensions : List FieldUse) (frame : TimeFrame) (cut : Truncation V)
    (today : V) (db : Engine V) : Prop where
  spine : ∀ r, db.value spineDate r = spineColumn.value r
  day : ∀ r, db.value t.dayColumn.sql r = t.dayColumn.value r
  today : ∀ r, db.value c.dialect.currentDate r = some today
  dimension : ∀ u ∈ dimensions, t.frame? u = none → ∀ r,
    db.value (t.rowsTable ++ "." ++ u.column) r = value ⟨t.rowsTable,u.column⟩ r
  spinePeriod : ∀ r, db.value (truncated c spineDate frame) r = (db.value spineDate r).map cut.first
  dayPeriod : ∀ r, db.value (truncated c t.dayColumn.sql frame) r = (db.value t.dayColumn.sql r).map cut.first
  counts : ∀ r, db.holds (truncated c t.dayColumn.sql frame ++ "<=" ++ spineDate) r =
    bothKnown (· ≤ ·) (db.value (truncated c t.dayColumn.sql frame) r) (db.value spineDate r)
  past : ∀ r, db.holds (spineDate ++ "<=" ++ c.dialect.currentDate) r =
    bothKnown (· ≤ ·) (db.value spineDate r) (db.value c.dialect.currentDate r)
  first : ∀ r, db.holds (spineDate ++ "=" ++ truncated c spineDate frame) r =
    bothKnown (· = ·) (db.value spineDate r) (db.value (truncated c spineDate frame) r)
  both : ∀ r, db.holds (" AND ".intercalate [spineDate ++ "<=" ++ c.dialect.currentDate,
      spineDate ++ "=" ++ truncated c spineDate frame]) r =
    (db.holds (spineDate ++ "<=" ++ c.dialect.currentDate) r &&
      db.holds (spineDate ++ "=" ++ truncated c spineDate frame) r)

def fits (t : RunningTotal) (dimensions : List FieldUse) (values : FieldUse → Option V) (row : ResultRow V) : Bool :=
  dimensions.all fun u => (t.frame? u).isSome || row u.column == values u

def counted (t : RunningTotal) (cut : Truncation V) (start : V) (row : ResultRow V) : Bool :=
  (row t.day.column).any fun day => cut.first day ≤ start

variable {t : RunningTotal} {s : Session} {dimensions : List FieldUse} {frame : TimeFrame} {select : Select}
  {cut : Truncation V} {today : V} {db : Engine V}

variable {row date : ResultRow V}

theorem fitsIff {values : FieldUse → Option V} :
    t.fits dimensions values row ↔ ∀ u ∈ dimensions, t.frame? u = none → row u.column = values u := by
  rw [fits,all_eq_true]
  refine forall₂_congr fun u _ => ?_
  cases t.frame? u <;> simp

theorem rowJoined (reads : t.ReadBy s.context dimensions frame cut today db) {x}
    (known : date "date" = some x) :
    db.holds (truncated s.context t.dayColumn.sql frame ++ "<=" ++ spineDate) (t.onDay date row) ↔ t.counted cut x row := by
  rw [reads.counts,reads.dayPeriod,reads.day,reads.spine,value,value,spineColumn,onDayDate,
    dayColumn,onDayRow]
  cases day : row t.day.column <;> simp [known,counted,bothKnown,day]

variable (table : t.ByPeriod s dimensions frame select) (reads : t.ReadBy s.context dimensions frame cut today db)
include table reads

theorem keyShown {x} (known : date "date" = some x) :
    db.groupKey s.context.dialect select (t.onDay date row) = t.keyOf dimensions (cut.first x) fun u => row u.column := by
  rw [Engine.groupKey,table.totals.groups,map_map,keyOf]
  refine map_congr_left fun u mem => ?_
  rw [Function.comp_apply,groupedShown table.totals table.named mem,shownSql]
  cases read : t.frame? u with
  | none =>
    rw [Option.elim_none,Option.elim_none,reads.dimension u mem read,value,onDayRow,Option.bind_some]
  | some g =>
    cases frameOnly table.only mem read
    rw [Option.elim_some,Option.elim_some,reads.spinePeriod,reads.spine,value,spineColumn,onDayDate]
    simp [known]

theorem dayKept : db.passes select (t.onDay date row) ↔ ∃ x, date "date" = some x ∧ x ≤ today ∧ cut.first x = x := by
  rw [Engine.passes,table.totals.conditions,periodOnly table.only,periodRange table.long,isEmpty_cons,
    Bool.false_or,reads.both,reads.past,reads.first,reads.spinePeriod,reads.today,reads.spine,value,
    spineColumn,onDayDate,Option.bind_some]
  cases date "date" with
  | none => simp [bothKnown]
  | some x => simpa [bothKnown] using fun _ => eq_comm

theorem dayRows {start : V} (own : cut.first start = start) (past : start ≤ today) (values : FieldUse → Option V)
    (date : ResultRow V) (rows : List (ResultRow V)) :
    (((rows.map (t.onDay date)).filter (db.holds (truncated s.context t.dayColumn.sql frame ++ "<=" ++ spineDate))).filter
      (db.passes select)).filter (fun r => db.groupKey s.context.dialect select r = t.keyOf dimensions start values) =
    (rows.filter fun row => date "date" = some start && (t.counted cut start row && t.fits dimensions values row)).map
      (t.onDay date) := by
  rw [filter_map,filter_map,filter_map,filter_filter,filter_filter]
  refine congrArg _ (filter_congr fun row _ => Bool.eq_iff_iff.mpr ?_)
  simp only [Function.comp_apply,Bool.and_eq_true,decide_eq_true_eq]
  rw [dayKept table reads,fitsIff]
  constructor
  · -- A day that is kept begins its period, so the key of the period tells the day.
    rintro ⟨⟨key,x,known,_,first⟩,joined⟩
    rw [keyShown table reads known,keysSame table.only,first] at key
    obtain ⟨fits,rfl⟩ := key
    exact ⟨known,(rowJoined reads known).mp joined,fits⟩
  · rintro ⟨known,counted,fits⟩
    refine ⟨⟨?_,start,known,past,own⟩,(rowJoined reads known).mpr counted⟩
    rw [keyShown table reads known,keysSame table.only]
    exact ⟨fits,own⟩

theorem groupRows {content : Contents V} {start : V} (own : cut.first start = start) (past : start ≤ today)
    (once : (content dateSpine).countP (fun date => date "date" = some start) = 1) (values : FieldUse → Option V) :
    (db.group? s.context.dialect content select (t.keyOf dimensions start values)).map (List.map fun r => r t.rowsTable) =
      some (((content t.rowsTable).filter fun row => t.counted cut start row && t.fits dimensions values row).map some) := by
  have rows (date) := dayRows table reads own past values date (content t.rowsTable)
  obtain ⟨date,single⟩ := length_eq_one_iff.mp (countP_eq_length_filter.symm.trans once)
  have known : date "date" = some start := by
    have mem : date ∈ (content dateSpine).filter fun date => date "date" = some start := by simp [single]
    simpa using (mem_filter.mp mem).2
  rw [Engine.group?,Engine.keptJoined (joinOnly table),Option.map_some,Option.map_some,table.totals.source,
    filter_flatMap,flatMapFilter (fun date => date "date" = some start),single,flatMap_singleton]
  · refine congrArg some ((congrArg _ (rows date)).trans ?_)
    simp [known,onDayRow,Function.comp_def]
  · intro other apart
    have away : other "date" ≠ some start := by simpa using apart
    refine (rows other).trans ?_
    simp [away]

theorem keptPeriods (content : Contents V) :
    ∃ kept, db.kept? content select = some kept ∧ ∀ r ∈ kept, ∃ start values, cut.first start = start ∧ start ≤ today ∧
      db.groupKey s.context.dialect select r = t.keyOf dimensions start values := by
  refine ⟨_,Engine.keptJoined (joinOnly table),fun r mem => ?_⟩
  rw [table.totals.source] at mem
  obtain ⟨date,_,inside⟩ := mem_flatMap.mp mem
  obtain ⟨inside,passes⟩ := mem_filter.mp inside
  obtain ⟨row,_,rfl⟩ := mem_map.mp (mem_filter.mp inside).1
  obtain ⟨x,known,past,own⟩ := (dayKept table reads).mp passes
  exact ⟨x,fun u => row u.column,own,past,own ▸ keyShown table reads known⟩

end

end RunningTotal

namespace Scope
open RunningTotal

theorem totalsNamed {s : Scope} {p : Plan} {before q after} (ok : (s.totalsQuery p).Returns before q after) :
    (useNames p.dimensions).Nodup := by
  simp only [totalsQuery,Compile.returnsBind,Compile.returnsLift] at ok
  obtain ⟨_,_,⟨checked,_⟩,_⟩ := ok
  have named := (checkedNames checked).1
  rw [useNames,map_append] at named
  exact (nodup_append.mp named).1

theorem periodTotalsOnce {s : Scope} {p : Plan} {before q after} (ok : (s.totalsQuery p).Returns before q after) :
    ∃ totals, s.TotalsTables p q totals ∧ ∀ t ∈ totals, ∀ frame ∈ periodFrames, p.dimensions.filterMap t.frame? = [frame] →
      ∃ select, t.totalsSelect s.toSession p.dimensions = .ok select ∧ (t.totalsTable, .ofSelect select) ∈ q.tables ∧
        ∀ (V : Type) [LinearOrder V] (cut : Truncation V) (today : V) (db : Engine V),
          t.ReadBy s.context p.dimensions frame cut today db → ∀ content : Contents V,
          (∃ kept, db.kept? content select = some kept ∧ ∀ r ∈ kept, ∃ start values, cut.first start = start ∧
            start ≤ today ∧ db.groupKey s.context.dialect select r = t.keyOf p.dimensions start values) ∧
          ∀ start, cut.first start = start → start ≤ today →
            (content dateSpine).countP (fun date => date "date" = some start) = 1 →
            (∀ day, cut.first day ≤ start ↔ ∃ last, cut.first last = start ∧ day ≤ last) ∧
            ∀ values, (db.group? s.context.dialect content select (t.keyOf p.dimensions start values)).map
                (List.map fun r => r t.rowsTable) =
              some (((content t.rowsTable).filter fun row =>
                t.counted cut start row && t.fits p.dimensions values row).map some) := by
  obtain ⟨totals,tables⟩ := totalsTables ok
  refine ⟨totals,tables,fun t mem frame long only => ?_⟩
  obtain ⟨select,selected,listed⟩ := tables.totals t mem
  have table : t.ByPeriod s.toSession p.dimensions frame select := ⟨totalsOf selected,totalsNamed ok,only,long⟩
  refine ⟨select,selected,listed,fun V _ cut today db reads content => ⟨?_,fun start own past once => ⟨?_,?_⟩⟩⟩
  · exact keptPeriods table reads content
  · exact cut.untilEnd own
  · exact groupRows table reads own past once

def monthCut : Truncation Nat where
  first day := day / 30 * 30
  monotone x y early := Nat.mul_le_mul_right 30 (Nat.div_le_div_right early)
  idempotent day := by simp
  notAfter day := Nat.div_mul_le_self day 30

def monthAndSku : List FieldUse := [placedAt .month,⟨lineView,skuField,none⟩]

def monthEngine : Engine Nat where
  value sql r :=
    if sql = "date_spine.date" then spineColumn.value r
    else if sql = "subquery_orders_total_revenue.placed_date" then revenueTotal.dayColumn.value r
    else if sql = "subquery_orders_total_revenue.sku" then value ⟨revenueTotal.rowsTable,"sku"⟩ r
    else if sql = "DATE_TRUNC('MONTH', date_spine.date)" then (spineColumn.value r).map monthCut.first
    else if sql = "DATE_TRUNC('MONTH', subquery_orders_total_revenue.placed_date)" then
      (revenueTotal.dayColumn.value r).map monthCut.first
    else some 100
  holds sql r :=
    let joined := bothKnown (· ≤ ·) ((revenueTotal.dayColumn.value r).map monthCut.first) (spineColumn.value r)
    let past := bothKnown (· ≤ ·) (spineColumn.value r) (some 100)
    let first := bothKnown (· = ·) (spineColumn.value r) ((spineColumn.value r).map monthCut.first)
    if sql = "DATE_TRUNC('MONTH', subquery_orders_total_revenue.placed_date)<=date_spine.date" then joined
    else if sql = "date_spine.date<=current_date()" then past
    else if sql = "date_spine.date=DATE_TRUNC('MONTH', date_spine.date)" then first
    else past && first

theorem monthRead : revenueTotal.ReadBy lineScope.context monthAndSku .month monthCut 100 monthEngine := by
  have spine : spineDate = "date_spine.date" := by decide
  have day : revenueTotal.dayColumn.sql = "subquery_orders_total_revenue.placed_date" := by decide +kernel
  have today : lineScope.context.dialect.currentDate = "current_date()" := rfl
  have spineMonth : truncated lineScope.context "date_spine.date" .month = "DATE_TRUNC('MONTH', date_spine.date)" := by
    decide +kernel
  have dayMonth : truncated lineScope.context "subquery_orders_total_revenue.placed_date" .month =
    "DATE_TRUNC('MONTH', subquery_orders_total_revenue.placed_date)" := by decide +kernel
  refine ⟨?_,?_,?_,?_,?_,?_,?_,?_,?_,?_⟩
  · simp [spine,monthEngine]
  · simp [day,monthEngine]
  · simp [today,monthEngine]
  · intro u mem plain r
    have sku : u = ⟨lineView,skuField,none⟩ := by
      simp only [monthAndSku,mem_cons,not_mem_nil,or_false] at mem
      rcases mem with rfl | rfl
      · cases plain
      · rfl
    have text : revenueTotal.rowsTable ++ "." ++ u.column = "subquery_orders_total_revenue.sku" := by
      rw [sku]
      decide +kernel
    have name : u.column = "sku" := by rw [sku]; decide +kernel
    rw [text,name]
    simp [monthEngine]
  · simp [spine,spineMonth,monthEngine]
  · simp [day,dayMonth,monthEngine]
  · simp [spine,day,dayMonth,monthEngine]
  · simp [spine,today,monthEngine]
  · simp [spine,spineMonth,monthEngine]
  · simp [spine,today,spineMonth,monthEngine]

def sale (day sku : Nat) : ResultRow Nat := fun column =>
  if column = "placed_date" then some day else if column = "sku" then some sku else none

def salesAndDays : Contents Nat := fun table =>
  if table = dateSpine then (List.range 150).map fun day _ => some day
  else [sale 5 7,sale 61 7,sale 62 8,sale 95 7,fun _ => none]

theorem thirdMonthTotalled :
    ∃ q after select, (lineScope.totalsQuery (totalBy monthAndSku)).Returns {} q after ∧
      (revenueTotal.totalsTable, .ofSelect select) ∈ q.tables ∧
      revenueTotal.ReadBy lineScope.context monthAndSku .month monthCut 100 monthEngine ∧
      (monthEngine.group? .snowflake salesAndDays select [some 60,some 7]).map
        (List.map fun r => r revenueTotal.rowsTable) = some [some (sale 5 7),some (sale 61 7)] := by
  have runs : (Compile.ran? (lineScope.totalsQuery (totalBy monthAndSku))).isSome := by decide +kernel
  obtain ⟨q,after,ran⟩ := Compile.ranSome runs
  obtain ⟨totals,tables,each⟩ := periodTotalsOnce ran
  cases totalOnly tables
  have only : monthAndSku.filterMap revenueTotal.frame? = [.month] := by decide +kernel
  obtain ⟨select,_,listed,evaluated⟩ := each _ List.mem_cons_self .month (by decide) only
  obtain ⟨_,groups⟩ := evaluated Nat monthCut 100 monthEngine monthRead salesAndDays
  obtain ⟨_,rows⟩ := groups 60 (by decide) (by decide) (by decide +kernel)
  exact ⟨q,after,select,ran,listed,monthRead,rows fun _ => some 7⟩

end Scope

end SemanticSql
