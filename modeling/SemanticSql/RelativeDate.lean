import SemanticSql.Calendar.Text
import SemanticSql.Grain

/-! Relative dates and the ranges of time they stand for. -/
namespace SemanticSql

inductive RelativeDate where
  | today
  | yesterday
  | ago (count : Nat) (unit : Interval)
  | this (unit : Interval)
  | last (count : Nat) (unit : Interval)
  | toDate (unit : Interval)
  | agoToDate (count : Nat) (unit : Interval)
  | agoFor (count : Nat) (unit : Interval) (length : Nat) (lengthUnit : Interval)
  | between (first last : Date)
  deriving DecidableEq, Repr

structure DateRange where
  first : DateTime
  last : DateTime
  deriving DecidableEq, Repr

structure Clock where
  now : DateTime
  weekStart : Weekday
  deriving DecidableEq, Repr

namespace Date

def startOfDay (d : Date) : DateTime := ⟨d,0,0,0,0⟩

def endOfDay (d : Date) : DateTime := ⟨d,23,59,59,0⟩

def shift? (d : Date) (unit : Interval) (count : Int) : Option Date :=
  match unit with
  | .week => d.addDays? (7 * count)
  | .month => d.addMonths? count
  | .quarter => d.addMonths? (3 * count)
  | .year => d.addMonths? (12 * count)
  | _ => d.addDays? count

def justBefore (d : Date) : DateTime := (ofDayNumber (d.dayNumber - 1)).endOfDay

def endOfUnits? (d : Date) (unit : Interval) (count : Int) : Option DateTime :=
  (d.shift? unit count).map justBefore

end Date

namespace Clock

def today (c : Clock) : Date := c.now.date

def startOf? (c : Clock) (d : Date) (unit : Interval) : Option Date :=
  match unit with
  | .week => d.addDays? (-(Int.ofNat ((d.weekday + 7 - c.weekStart.fromMonday) % 7)))
  | .month => some { d with day := 1 }
  | .quarter => some { d with month := (d.month - 1) / 3 * 3 + 1, day := 1 }
  | .year => some { d with month := 1, day := 1 }
  | _ => some d

def startAgo? (c : Clock) (unit : Interval) (count : Nat) : Option Date := do
  let current ← c.startOf? c.today unit
  current.shift? unit (-(Int.ofNat count))

def range? (c : Clock) : RelativeDate → Option DateRange
  | .today => some ⟨c.today.startOfDay,c.today.endOfDay⟩
  | .yesterday => do
    let day ← c.today.shift? .day (-1)
    some ⟨day.startOfDay,day.endOfDay⟩
  | .ago count unit => do
    let first ← c.startAgo? unit count
    let last ← first.endOfUnits? unit 1
    some ⟨first.startOfDay,last⟩
  | .this unit => do
    let first ← c.startOf? c.today unit
    let last ← first.endOfUnits? unit 1
    some ⟨first.startOfDay,last⟩
  | .last count unit => do
    let current ← c.startOf? c.today unit
    let first ← current.shift? unit (-(Int.ofNat count))
    some ⟨first.startOfDay,current.justBefore⟩
  | .toDate unit => do
    let first ← c.startOf? c.today unit
    some ⟨first.startOfDay,c.today.endOfDay⟩
  | .agoToDate count unit => do
    let day ← c.today.shift? unit (-(Int.ofNat count))
    let first ← c.startOf? day unit
    some ⟨first.startOfDay,day.endOfDay⟩
  | .agoFor count unit length lengthUnit => do
    let first ← c.startAgo? unit count
    let last ← first.endOfUnits? lengthUnit (Int.ofNat length)
    some ⟨first.startOfDay,last⟩
  | .between first last => some ⟨first.startOfDay,last.endOfDay⟩

end Clock

end SemanticSql
