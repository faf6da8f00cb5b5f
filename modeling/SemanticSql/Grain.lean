/-!
Grains of time: the time frames a time group can be read at, the intervals a duration group can be measured
in, and the storage types of time columns.
-/
namespace SemanticSql

inductive TimeFrame where
  | raw | time | second | minute | hour | date | week | month | quarter | year
  | weekIndex | weekOfYear | weekOfMonth
  | monthOfYear | monthName | monthOfYearIndex | monthIndex
  | quarterOfYear | hourOfDay | dayOfWeek | dayOfMonth | dayOfYear
  deriving DecidableEq, Repr

namespace TimeFrame

def all : List TimeFrame :=
  [raw,time,second,minute,hour,date,week,month,quarter,year,weekIndex,weekOfYear,weekOfMonth,
   monthOfYear,monthName,monthOfYearIndex,monthIndex,quarterOfYear,hourOfDay,dayOfWeek,dayOfMonth,
   dayOfYear]

def name : TimeFrame → String
  | raw => "raw"
  | time => "time"
  | second => "second"
  | minute => "minute"
  | hour => "hour"
  | date => "date"
  | week => "week"
  | month => "month"
  | quarter => "quarter"
  | year => "year"
  | weekIndex => "week_index"
  | weekOfYear => "week_of_year"
  | weekOfMonth => "week_of_month"
  | monthOfYear => "month_of_year"
  | monthName => "month_name"
  | monthOfYearIndex => "month_of_year_index"
  | monthIndex => "month_index"
  | quarterOfYear => "quarter_of_year"
  | hourOfDay => "hour_of_day"
  | dayOfWeek => "day_of_week"
  | dayOfMonth => "day_of_month"
  | dayOfYear => "day_of_year"

def ofName? (s : String) : Option TimeFrame := all.find? fun t => t.name == s

theorem ofName?_name (t : TimeFrame) : ofName? t.name = some t := by cases t <;> decide

def canonical : TimeFrame → TimeFrame
  | monthName => monthOfYear
  | monthIndex => monthOfYearIndex
  | weekOfYear => weekIndex
  | t => t

end TimeFrame

inductive Interval where
  | second | minute | hour | day | week | month | quarter | year
  deriving DecidableEq, Repr

namespace Interval

def all : List Interval := [second,minute,hour,day,week,month,quarter,year]

def name : Interval → String
  | second => "second"
  | minute => "minute"
  | hour => "hour"
  | day => "day"
  | week => "week"
  | month => "month"
  | quarter => "quarter"
  | year => "year"

def keyword : Interval → String
  | second => "SECOND"
  | minute => "MINUTE"
  | hour => "HOUR"
  | day => "DAY"
  | week => "WEEK"
  | month => "MONTH"
  | quarter => "QUARTER"
  | year => "YEAR"

def ofName? (s : String) : Option Interval := all.find? fun i => i.name == s

def ofPlural? (s : String) : Option Interval :=
  match s.toList.reverse with
  | 's' :: rest => ofName? (String.ofList rest.reverse)
  | _ => ofName? s

theorem ofName?_name (i : Interval) : ofName? i.name = some i := by cases i <;> decide

end Interval

inductive Grain where
  | time (frame : TimeFrame)
  | duration (interval : Interval)
  deriving DecidableEq, Repr

def Grain.isTime : Option Grain → Bool
  | some (.time _) => true
  | _ => false

inductive Datatype where
  | timestamp | date | datetime
  deriving DecidableEq, Repr

namespace Datatype

def all : List Datatype := [timestamp,date,datetime]

def name : Datatype → String
  | timestamp => "timestamp"
  | date => "date"
  | datetime => "datetime"

def keyword : Datatype → String
  | timestamp => "TIMESTAMP"
  | date => "DATE"
  | datetime => "DATETIME"

def ofName? (s : String) : Option Datatype := all.find? fun d => d.name == s

theorem ofName?_name (d : Datatype) : ofName? d.name = some d := by cases d <;> decide

end Datatype

end SemanticSql
