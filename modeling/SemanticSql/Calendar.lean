/-!
The proleptic Gregorian calendar. Days are numbered from 1 January of year 1, a Monday; a date has a day number and a
day number has a date.
-/
namespace SemanticSql

inductive Weekday where
  | monday | tuesday | wednesday | thursday | friday | saturday | sunday
  deriving DecidableEq, Repr

namespace Weekday

def all : List Weekday := [monday,tuesday,wednesday,thursday,friday,saturday,sunday]

def name : Weekday → String
  | monday => "monday"
  | tuesday => "tuesday"
  | wednesday => "wednesday"
  | thursday => "thursday"
  | friday => "friday"
  | saturday => "saturday"
  | sunday => "sunday"

def ofName? (s : String) : Option Weekday := all.find? fun d => d.name == s

theorem ofName?_name (d : Weekday) : ofName? d.name = some d := by cases d <;> decide

def fromMonday : Weekday → Nat
  | monday => 0
  | tuesday => 1
  | wednesday => 2
  | thursday => 3
  | friday => 4
  | saturday => 5
  | sunday => 6

/-- Days by which a week that starts on Monday is moved to start on this day; none for Monday itself. -/
def offset? : Weekday → Option Nat
  | monday => none
  | sunday => some 1
  | saturday => some 2
  | friday => some 3
  | thursday => some 4
  | wednesday => some 5
  | tuesday => some 6

end Weekday

structure Date where
  year : Int
  month : Nat
  day : Nat
  deriving DecidableEq, Repr

namespace Date

def isLeap (year : Int) : Bool := year % 4 = 0 ∧ (year % 100 ≠ 0 ∨ year % 400 = 0)

def monthLengths (year : Int) : List Nat :=
  [31,if isLeap year then 29 else 28,31,30,31,30,31,31,30,31,30,31]

def daysInMonth (year : Int) (month : Nat) : Nat := (monthLengths year).getD (month - 1) 0

def leastYear : Int := -262143

def greatestYear : Int := 262142

def inRange (year : Int) : Bool := leastYear ≤ year ∧ year ≤ greatestYear

def of? (year : Int) (month day : Nat) : Option Date :=
  if inRange year ∧ 1 ≤ month ∧ month ≤ 12 ∧ 1 ≤ day ∧ day ≤ daysInMonth year month then
    some ⟨year,month,day⟩
  else none

def daysBeforeYear (year : Int) : Int :=
  365 * (year - 1) + (year - 1) / 4 - (year - 1) / 100 + (year - 1) / 400

def daysBeforeMonth (year : Int) (month : Nat) : Nat := ((monthLengths year).take (month - 1)).foldl (· + ·) 0

def dayNumber (d : Date) : Int :=
  daysBeforeYear d.year + Int.ofNat (daysBeforeMonth d.year d.month) + Int.ofNat d.day - 1

def yearOfDay (n : Int) : Int :=
  let guess := n * 400 / 146097 + 1
  if daysBeforeYear (guess + 1) ≤ n then guess + 1
  else if daysBeforeYear guess ≤ n then guess
  else guess - 1

def monthOfDay (month : Nat) : List Nat → Nat → Nat × Nat
  | [], n => (month, n + 1)
  | length :: rest, n => if n < length then (month, n + 1) else monthOfDay (month + 1) rest (n - length)

def ofDayNumber (n : Int) : Date :=
  let year := yearOfDay n
  let rest := monthOfDay 1 (monthLengths year) (n - daysBeforeYear year).toNat
  ⟨year,rest.1,rest.2⟩

def weekday (d : Date) : Nat := (d.dayNumber % 7).toNat

def addDays? (d : Date) (n : Int) : Option Date :=
  let shifted := d.dayNumber + n
  if daysBeforeYear leastYear ≤ shifted ∧ shifted < daysBeforeYear (greatestYear + 1) then
    some (ofDayNumber shifted)
  else none

/-- The same day of another month, or the last day of that month if it is shorter. -/
def addMonths? (d : Date) (n : Int) : Option Date :=
  let months := d.year * 12 + Int.ofNat (d.month - 1) + n
  let year := months / 12
  let month := (months % 12).toNat + 1
  if inRange year then some ⟨year,month,min d.day (daysInMonth year month)⟩ else none

end Date

/-- A date with a time of day; the second 60 is a leap second. -/
structure DateTime where
  date : Date
  hour : Nat
  minute : Nat
  second : Nat
  nanosecond : Nat
  deriving DecidableEq, Repr

end SemanticSql
