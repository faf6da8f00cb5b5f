import SemanticSql.Grain
import SemanticSql.Number.Binary64
import SemanticSql.Text.Case
import SemanticSql.Text.Cut

/-! Fields of a view: dimensions, dimension groups and measures. -/
namespace SemanticSql

inductive FieldRole where
  | dimension | group | measure
  deriving DecidableEq, Repr

namespace FieldRole

def all : List FieldRole := [dimension,group,measure]

def name : FieldRole → String
  | dimension => "dimension"
  | group => "dimension_group"
  | measure => "measure"

def ofName? (s : String) : Option FieldRole := all.find? fun r => r.name == s

theorem ofName?_name (r : FieldRole) : ofName? r.name = some r := by cases r <;> decide

end FieldRole

inductive FieldType where
  | string | number | yesNo | tier | date | timestamp | time | duration
  | sum | sumDistinct | count | countDistinct | average | averageDistinct | median | max | min | cumulative
  deriving DecidableEq, Repr

namespace FieldType

def all : List FieldType :=
  [string,number,yesNo,tier,date,timestamp,time,duration,sum,sumDistinct,count,countDistinct,
    average,averageDistinct,median,max,min,cumulative]

def name : FieldType → String
  | string => "string"
  | number => "number"
  | yesNo => "yesno"
  | tier => "tier"
  | date => "date"
  | timestamp => "timestamp"
  | time => "time"
  | duration => "duration"
  | sum => "sum"
  | sumDistinct => "sum_distinct"
  | count => "count"
  | countDistinct => "count_distinct"
  | average => "average"
  | averageDistinct => "average_distinct"
  | median => "median"
  | max => "max"
  | min => "min"
  | cumulative => "cumulative"

def ofName? (s : String) : Option FieldType :=
  if s = "avg" then some average else all.find? fun t => t.name == s

theorem ofName?_name (t : FieldType) : ofName? t.name = some t := by cases t <;> decide

end FieldType

structure FieldFilter where
  field : String
  value : String
  deriving DecidableEq, Repr

structure CaseBranch where
  sql : String
  label : String
  deriving DecidableEq, Repr

structure CaseTable where
  branches : List CaseBranch
  otherwise : Option String
  deriving DecidableEq, Repr

inductive WindowEnd where
  | max | min
  deriving DecidableEq, Repr

namespace WindowEnd

def all : List WindowEnd := [max,min]

def name : WindowEnd → String
  | max => "max"
  | min => "min"

def keyword : WindowEnd → String
  | max => "MAX"
  | min => "MIN"

def ofName? (s : String) : Option WindowEnd := all.find? fun w => w.name == s

theorem ofName?_name (w : WindowEnd) : ofName? w.name = some w := by cases w <;> decide

end WindowEnd

/-- The dimension over which a measure must not be added up: only its last or first value counts. -/
structure NonAdditive where
  name : String
  keep : WindowEnd
  groupings : List String := []
  followsQuery : Bool := true
  nullsEqual : Bool := false
  deriving DecidableEq, Repr

structure Field where
  name : String
  role : FieldRole := .dimension
  type : FieldType := .string
  sql : Option String := none
  sqlStart : Option String := none
  sqlEnd : Option String := none
  timeframes : List TimeFrame := []
  intervals : List Interval := []
  datatype : Datatype := .timestamp
  convertTimezone : Option Bool := none
  canonDate : Option String := none
  primaryKey : Bool := false
  hidden : Bool := false
  tags : List String := []
  filters : List FieldFilter := []
  cases : Option CaseTable := none
  tiers : List Binary64 := []
  distinctKey : Option String := none
  measure : Option String := none
  cumulativeWhere : Option String := none
  nonAdditive : Option NonAdditive := none
  isMergedResult : Bool := false
  requiredGrants : List String := []
  label : Option String := none
  description : Option String := none
  deriving DecidableEq, Repr

def callsWindow (before : Option Char) : List Char → Bool
  | [] => false
  | c :: rest =>
    (Text.isBoundary before (some c) && ((c :: rest).take 4).map Char.toLower == "over".toList &&
      (Text.trimLeft ((c :: rest).drop 4)).head? == some '(') || callsWindow (some c) rest

namespace Field

def dimension (name sql : String) : Field := { name, sql := some sql }

def timeGroup (name sql : String) (timeframes : List TimeFrame) : Field :=
  { name, role := .group, type := .time, sql := some sql, timeframes }

def durationGroup (name sqlStart sqlEnd : String) (intervals : List Interval) : Field :=
  { name, role := .group, type := .duration, sqlStart := some sqlStart, sqlEnd := some sqlEnd, intervals }

def ofAggregate (name : String) (type : FieldType) (sql : String) : Field :=
  { name, role := .measure, type, sql := some sql }

def rowCount (name : String) : Field := { name, role := .measure, type := .count }

def runningTotal (name measure : String) : Field :=
  { name, role := .measure, type := .cumulative, measure := some measure }

def withTiers (f : Field) (tiers : List Binary64) : Field := { f with type := .tier, tiers }

def isMeasure (f : Field) : Bool := f.role == .measure

def isGroup (f : Field) : Bool := f.role == .group

def isCumulative (f : Field) : Bool := f.isMeasure && f.type == .cumulative

def isFormula (f : Field) : Bool := f.isMeasure && f.type == .number

def isWindowFunction (f : Field) : Bool :=
  match f.sql with
  | some sql => callsWindow none sql.toList
  | none => false

def isWindowDimension (f : Field) : Bool := f.role == .dimension && f.isWindowFunction

def grainOf? (f : Field) (name : String) : Option (Option Grain) :=
  match f.role, f.type with
  | .group, .time =>
    if name = f.name then some (some (.time .raw))
    else do
      let rest ← Text.dropLead? (f.name.toList ++ ['_']) name.toList
      let frame ← TimeFrame.ofName? (String.ofList rest)
      if f.timeframes.isEmpty || frame == .raw || f.timeframes.contains frame then some (some (.time frame))
      else none
  | .group, .duration => do
    let rest ← Text.dropTail? ('_' :: f.name.toList) name.toList
    let interval ← Interval.ofPlural? (String.ofList rest)
    if f.intervals.isEmpty || f.intervals.contains interval then some (some (.duration interval)) else none
  | _, _ => if name = f.name then some none else none

def aliasAt (f : Field) : Option Grain → String
  | some (.time frame) => f.name ++ "_" ++ frame.name
  | some (.duration interval) => interval.name ++ "s_" ++ f.name
  | none => f.name

end Field

end SemanticSql
