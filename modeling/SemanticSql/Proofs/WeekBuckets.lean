import SemanticSql.Dialect.Time
import SemanticSql.Proofs.RelativeRanges
import SemanticSql.Proofs.SqlExpressions

/-! The weeks of a column in SQL and the weeks of relative dates start at the same moments. -/
namespace SemanticSql

inductive WeekExpression where
  | column
  | days (n : Nat)
  | date (a : WeekExpression)
  | monday (a : WeekExpression)
  | weekday (a : WeekExpression)
  | plus (a b : WeekExpression)
  | minus (a b : WeekExpression)
  deriving DecidableEq, Repr

namespace WeekExpression
open Sql (Token)

inductive Stage where
  | sum
  | operand
  | after (a : WeekExpression)

def days? (digits : String) : Option WeekExpression :=
  if digits.toList.all Char.isDigit then some (.days (Numeral.digitsValue digits.toList)) else none

def readFrom : Nat → Stage → List Token → Option (WeekExpression × List Token)
  | 0, _, _ => none
  | n + 1, .sum, ts => do
    let (a, ts) ← readFrom n .operand ts
    readFrom n (.after a) ts
  | n + 1, .after a, .symbol '+' :: ts => do
    let (b, ts) ← readFrom n .operand ts
    readFrom n (.after (.plus a b)) ts
  | n + 1, .after a, .symbol '-' :: ts => do
    let (b, ts) ← readFrom n .operand ts
    readFrom n (.after (.minus a b)) ts
  | _ + 1, .after a, ts => some (a, ts)
  | _ + 1, .operand, .symbol '?' :: ts => some (.column, ts)
  | _ + 1, .operand, .word "INTERVAL" :: .quoted digits :: .word "DAY" :: ts => (days? digits).map (·, ts)
  | n + 1, .operand, .word "INTERVAL" :: ts => do
    match ← readFrom n .sum ts with
    | (a, .word "DAY" :: ts) => some (a, ts)
    | _ => none
  | n + 1, .operand, .word "CAST" :: .symbol '(' :: ts => do
    match ← readFrom n .sum ts with
    | (a, .word "AS" :: .word "DATE" :: .symbol ')' :: ts) => some (.date a, ts)
    | (a, .word "AS" :: .word "TIMESTAMP" :: .symbol ')' :: ts) => some (a, ts)
    | _ => none
  | n + 1, .operand, .word "DATE_TRUNC" :: .symbol '(' :: .quoted "WEEK" :: .symbol ',' :: ts => do
    match ← readFrom n .sum ts with
    | (a, .symbol ')' :: ts) => some (.monday a, ts)
    | _ => none
  | n + 1, .operand, .word name :: .symbol '(' :: ts => do
    match name, ← readFrom n .sum ts with
    | "DATE", (a, .symbol ')' :: ts) => some (.date a, ts)
    | "WEEKDAY", (a, .symbol ')' :: ts) => some (.weekday a, ts)
    | "DATE_ADD", (a, .symbol ',' :: ts) =>
      match ← readFrom n .sum ts with
      | (b, .symbol ')' :: ts) => some (.plus a b, ts)
      | _ => none
    | "DATE_SUB", (a, .symbol ',' :: ts) =>
      match ← readFrom n .sum ts with
      | (b, .symbol ')' :: ts) => some (.minus a b, ts)
      | _ => none
    | _, _ => none
  | _ + 1, .operand, .word digits :: ts => (days? digits).map (·, ts)
  | _ + 1, .operand, _ => none

/- Between two tokens the reader goes less than three calls deep. -/
def read? (text : String) : Option WeekExpression := do
  let ts ← Sql.lex .code [] text.toList
  let (e, rest) ← readFrom (3 * ts.length + 3) .sum ts
  if rest.isEmpty then some e else none

/- Seconds from a Monday on, for a column at a moment; a number of days is as many seconds. -/
def value (moment : Int) : WeekExpression → Int
  | .column => moment
  | .days n => 86400 * n
  | .date a => a.value moment / 86400 * 86400
  | .monday a => a.value moment / 604800 * 604800
  | .weekday a => a.value moment / 86400 % 7 * 86400
  | .plus a b => a.value moment + b.value moment
  | .minus a b => a.value moment - b.value moment

def bucket (e : WeekExpression) (t : DateTime) : DateTime := .ofSeconds (e.value t.seconds)

/- The truncation of a column, shifted forward before and back afterwards. -/
def truncated (a : WeekExpression) (w : Weekday) : WeekExpression :=
  match w.offset? with
  | none => .monday a
  | some n => .minus (.monday (.plus a (.days n))) (.days n)

def weekdayTaken (w : Weekday) : WeekExpression :=
  match w.offset? with
  | none => .minus (.date .column) (.weekday .column)
  | some n =>
    .minus (.plus (.date .column) (.days n)) (.plus (.weekday (.plus (.date .column) (.days n))) (.days n))

end WeekExpression

namespace DateStyle
open WeekExpression

def weekExpression? (w : Weekday) : DateStyle → Option WeekExpression
  | snowflake => some (truncated (.date .column) w)
  | postgres | databricks | druid | trino => some (truncated .column w)
  | mySql => some (weekdayTaken w)
  | sqlServer | bigQuery => none

variable {style : DateStyle} {datatype : Datatype} {w : Weekday} {e : WeekExpression}

theorem weekRead (known : style.weekExpression? w = some e) :
    read? (style.week Cell.value.text datatype w) = some e := by
  have offsets : w.offset? = none ∨ ∃ n ∈ List.range 7, w.offset? = some n := by cases w <;> decide
  obtain monday | ⟨n,small,shifted⟩ := offsets
  · cases style with
    | sqlServer | bigQuery => cases known
    | _ =>
      cases known
      simp only [week,monday,truncated,weekdayTaken,read?,toString,String.toList_append,valueChars,literalChars rfl]
      decide +kernel
  · cases style with
    | sqlServer | bigQuery => cases known
    | _ =>
      cases known
      simp only [week,shifted,truncated,weekdayTaken,read?,toString,String.toList_append,valueChars,literalChars rfl]
      clear shifted
      revert n
      decide +kernel

theorem numberFilled (s key : String) (n : Nat) : fillCells s key (Nat.repr n) = Nat.repr n := by
  refine fillPlain (show _ = String.ofList (Nat.toDigits 10 n) from rfl) (List.all_eq_true.mpr fun c mem => ?_)
  have digit : c.isDigit := Nat.isDigit_of_mem_toDigits (by decide) (by decide) mem
  rw [Bool.and_eq_true,decide_eq_true_eq,decide_eq_true_eq]
  constructor <;> rintro rfl <;> revert digit <;> decide

theorem weekFilled (known : style.weekExpression? w = some e) (s key : String) :
    style.week s datatype w = fillCells s key (style.week Cell.value.text datatype w) := by
  cases style with
  | sqlServer | bigQuery => cases known
  | _ =>
    cases shift : w.offset? with
    | none => simp (disch := decide) only [week,shift,toString,fillAppend,fillValue,fillPlain rfl]
    | some n => simp (disch := decide) only [week,shift,toString,fillAppend,fillValue,numberFilled,fillPlain rfl]

theorem weekValue (known : style.weekExpression? w = some e) (moment : Int) :
    e.value moment = (7 * ((moment / 86400 - w.fromMonday) / 7) + w.fromMonday) * 86400 := by
  cases style with
  | sqlServer | bigQuery => cases known
  | _ =>
    cases known
    cases w <;> simp only [truncated,weekdayTaken,Weekday.offset?,value,Weekday.fromMonday] <;> omega

end DateStyle

namespace DateTime

theorem secondsOf (n : Int) : (ofSeconds n).seconds = n := by
  simp only [seconds,ofSeconds,(Date.dateProper _).2,Int.ofNat_eq_natCast]
  omega

theorem dayStarts (n : Int) : ofSeconds (n * 86400) = (Date.ofDayNumber n).startOfDay := by
  have day : n * 86400 / 86400 = n := by omega
  have rest : (n * 86400 % 86400).toNat = 0 := by omega
  simp only [ofSeconds,day,rest]
  rfl

end DateTime

namespace Clock
open WeekExpression

section
variable {style : DateStyle} {c : Clock} {e : WeekExpression} (known : style.weekExpression? c.weekStart = some e)
include known

theorem bucketStarts (t : DateTime) :
    e.bucket t = (c.periodStart .week ((t.seconds / 86400 - c.weekStart.fromMonday) / 7)).startOfDay := by
  rw [bucket,DateStyle.weekValue known,DateTime.dayStarts]
  rfl

theorem bucketOf {t : DateTime} (valid : t.Valid) :
    e.bucket t = (c.periodStart .week (c.periodOf .week t.date)).startOfDay := by
  obtain ⟨first,last⟩ := nowSeconds (c := ⟨t,c.weekStart⟩) valid
  have day : t.seconds / 86400 = t.date.dayNumber := by
    simp only [today] at first last
    omega
  rw [bucketStarts known,day]
  rfl

theorem bucketBefore (valid : c.now.Valid) :
    e.bucket (c.now.plusSeconds (-604800)) = (c.periodStart .week (c.periodOf .week c.today - 1)).startOfDay := by
  obtain ⟨first,last⟩ := nowSeconds valid
  rw [bucketStarts known,DateTime.plusSeconds,DateTime.secondsOf,
    show (c.now.seconds + -604800) / 86400 = c.today.dayNumber - 7 by omega,
    show (c.today.dayNumber - 7 - c.weekStart.fromMonday : Int) / 7 = c.periodOf .week c.today - 1 by
      simp only [periodOf]
      omega]

theorem weekHolds (t : DateTime) (k : Int) :
    (c.span .week (k - 1) k).Contains t ↔ e.bucket t = (c.periodStart .week (k - 1)).startOfDay := by
  have same (k n : Int) : (c.periodStart .week k).startOfDay = (c.periodStart .week n).startOfDay ↔ k = n := by
    refine ⟨fun equal => ?_,fun equal => by rw [equal]⟩
    have equal := congrArg DateTime.seconds equal
    simp only [Date.startSeconds,periodStart,(Date.dateProper _).2] at equal
    omega
  rw [bucketStarts known,same]
  simp only [DateRange.Contains,span,Date.startSeconds,Date.beforeSeconds,periodStart,(Date.dateProper _).2]
  omega

end

theorem lastWeek {c : Clock} (valid : c.now.Valid) {r : DateRange} : c.range? (.last 1 .week) = some r ↔
    c.Known .week (c.periodOf .week c.today) ∧ c.Known .week (c.periodOf .week c.today - 1) ∧
      r = c.span .week (c.periodOf .week c.today - 1) (c.periodOf .week c.today) := by
  simp only [range?,Option.bind_eq_bind,Option.bind_eq_some_iff,currentFound valid]
  constructor
  · rintro ⟨_,⟨current,rfl⟩,_,shifted,range⟩
    rw [periodShifted,Date.reachedIff] at shifted
    obtain ⟨before,rfl⟩ := shifted
    exact ⟨current,before,(Option.some.inj range).symm⟩
  · rintro ⟨current,before,rfl⟩
    refine ⟨_,⟨current,rfl⟩,_,?_,rfl⟩
    rw [periodShifted]
    exact Date.reachedIff.mpr ⟨before,rfl⟩

theorem weeksShared {d : Dialect} {c : Clock} (valid : c.now.Valid)
    (truncates : d ∈ [.snowflake,.redshift,.postgres,.duckDb,.databricks,.druid,.trino,.mySql]) (datatype : Datatype) :
    ∃ e, read? (d.atFrame Cell.value.text .week datatype c.weekStart) = some e ∧
      (∀ s key, d.atFrame s .week datatype c.weekStart =
        fillCells s key (d.atFrame Cell.value.text .week datatype c.weekStart)) ∧
      (∀ t : DateTime, t.Valid → e.bucket t = (e.bucket t).date.startOfDay ∧
        c.startOf? t.date .week = (e.bucket t).date.reached?) ∧
      ((c.range? (.last 1 .week)).isSome ↔ Date.inRange (e.bucket c.now).date.year ∧
        Date.inRange (e.bucket (c.now.plusSeconds (-604800))).date.year) ∧
      ∀ r, c.range? (.last 1 .week) = some r → r.first = e.bucket (c.now.plusSeconds (-604800)) ∧
        ∀ t, r.Contains t ↔ e.bucket t = r.first := by
  obtain ⟨e,known⟩ : ∃ e, d.dateStyle.weekExpression? c.weekStart = some e := by
    cases d <;> first | exact ⟨_,rfl⟩ | exact absurd truncates (by decide)
  refine ⟨e,DateStyle.weekRead known,DateStyle.weekFilled known,fun t valid => ?_,?_,fun r found => ?_⟩
  · obtain ⟨proper,inRange⟩ := Date.ofExists.mp valid.date
    rw [bucketOf known valid,startsPeriod c .week proper inRange]
    exact ⟨rfl,rfl⟩
  · simp only [Option.isSome_iff_exists,lastWeek valid,bucketOf known valid,bucketBefore known valid]
    exact ⟨fun ⟨_,current,before,_⟩ => ⟨current,before⟩,fun ⟨current,before⟩ => ⟨_,current,before,rfl⟩⟩
  · obtain ⟨_,_,rfl⟩ := (lastWeek valid).mp found
    exact ⟨(bucketBefore known valid).symm,fun t => weekHolds known t _⟩

def sundayClock : Clock := ⟨⟨⟨2024,3,13⟩,12,30,0,0⟩,.sunday⟩

theorem sundayWeeks : ∃ e, read? (Dialect.mySql.atFrame Cell.value.text .week .date .sunday) = some e ∧
    ∃ r, sundayClock.range? (.last 1 .week) = some r ∧
      ∀ t, r.Contains t ↔ e.bucket t = (⟨2024,3,3⟩ : Date).startOfDay := by
  have found : sundayClock.range? (.last 1 .week) =
      some ⟨(⟨2024,3,3⟩ : Date).startOfDay,(⟨2024,3,9⟩ : Date).endOfDay⟩ := by decide +kernel
  obtain ⟨e,read,_,_,_,last⟩ := weeksShared (d := .mySql) (c := sundayClock)
    ⟨by decide,by decide,by decide,by decide⟩ (by decide) .date
  exact ⟨e,read,_,found,(last _ found).2⟩

end Clock
end SemanticSql
