import SemanticSql.Calendar
import SemanticSql.Dialect

/-!
Time columns in SQL: truncation to a time frame, elapsed units between two columns, and conversion to a time zone.
-/
namespace SemanticSql

inductive DateStyle where
  | snowflake | postgres | databricks | druid | sqlServer | bigQuery | trino | mySql
  deriving DecidableEq, Repr

def Dialect.dateStyle : Dialect → DateStyle
  | .snowflake | .redshift => .snowflake
  | .postgres | .duckDb => .postgres
  | .databricks => .databricks
  | .druid => .druid
  | .sqlServer | .azureSynapse => .sqlServer
  | .bigQuery => .bigQuery
  | .trino => .trino
  | .mySql => .mySql

namespace DateStyle

def monthNames : String :=
  "WHEN 1 THEN 'Jan' WHEN 2 THEN 'Feb' WHEN 3 THEN 'Mar' WHEN 4 THEN 'Apr' " ++
  "WHEN 5 THEN 'May' WHEN 6 THEN 'Jun' WHEN 7 THEN 'Jul' WHEN 8 THEN 'Aug' WHEN 9 THEN 'Sep' " ++
  "WHEN 10 THEN 'Oct' WHEN 11 THEN 'Nov' WHEN 12 THEN 'Dec' ELSE 'Invalid Month' END"

def dayNames : String :=
  "WHEN 1 THEN 'Mon' WHEN 2 THEN 'Tue' WHEN 3 THEN 'Wed' WHEN 4 THEN 'Thu' " ++
  "WHEN 5 THEN 'Fri' WHEN 6 THEN 'Sat' WHEN 7 THEN 'Sun' ELSE 'Invalid Day' END"

/-- A week that does not start on Monday is truncated after shifting the column forward, and shifted back. -/
def week (style : DateStyle) (s : String) (datatype : Datatype) (weekStart : Weekday) : String :=
  match style, weekStart.offset? with
  | snowflake, none => s!"DATE_TRUNC('WEEK', CAST({s} AS DATE))"
  | snowflake, some off => s!"DATE_TRUNC('WEEK', CAST({s} AS DATE) + {off}) - {off}"
  | postgres, none | druid, none | databricks, none | trino, none =>
    s!"DATE_TRUNC('WEEK', CAST({s} AS TIMESTAMP))"
  | postgres, some off | druid, some off | databricks, some off | trino, some off =>
    s!"DATE_TRUNC('WEEK', CAST({s} AS TIMESTAMP) + INTERVAL '{off}' DAY) - INTERVAL '{off}' DAY"
  | bigQuery, none => s!"DATE_TRUNC(CAST({s} AS DATE), WEEK)"
  | bigQuery, some off => s!"CAST(DATE_TRUNC(CAST({s} AS DATE) + {off}, WEEK) - {off} AS {datatype.keyword})"
  | sqlServer, none => s!"DATEADD(WEEK, DATEDIFF(WEEK, 0, CAST({s} AS DATE)), 0)"
  | sqlServer, some off =>
    s!"DATEADD(DAY, -{off}, DATEADD(WEEK, DATEDIFF(WEEK, 0, DATEADD(DAY, {off}, CAST({s} AS DATE))), 0))"
  | mySql, none => s!"DATE_SUB(DATE({s}), INTERVAL WEEKDAY({s}) DAY)"
  | mySql, some off =>
    let shifted := s!"DATE_ADD(DATE({s}), INTERVAL {off} DAY)"
    s!"DATE_SUB({shifted}, INTERVAL WEEKDAY({shifted}) + {off} DAY)"

def snowflakeFrame (s : String) : TimeFrame → String
  | .time => s!"CAST({s} AS TIMESTAMP)"
  | .second => s!"DATE_TRUNC('SECOND', {s})"
  | .minute => s!"DATE_TRUNC('MINUTE', {s})"
  | .hour => s!"DATE_TRUNC('HOUR', {s})"
  | .date => s!"DATE_TRUNC('DAY', {s})"
  | .month => s!"DATE_TRUNC('MONTH', {s})"
  | .quarter => s!"DATE_TRUNC('QUARTER', {s})"
  | .year => s!"DATE_TRUNC('YEAR', {s})"
  | .weekIndex => s!"EXTRACT(WEEK FROM {s})"
  | .weekOfMonth => s!"EXTRACT(WEEK FROM {s}) - EXTRACT(WEEK FROM DATE_TRUNC('MONTH', {s})) + 1"
  | .monthOfYearIndex => s!"EXTRACT(MONTH FROM {s})"
  | .monthOfYear => s!"TO_CHAR(CAST({s} AS TIMESTAMP), 'Mon')"
  | .quarterOfYear => s!"EXTRACT(QUARTER FROM {s})"
  | .hourOfDay => s!"HOUR(CAST({s} AS TIMESTAMP))"
  | .dayOfWeek => s!"TO_CHAR(CAST({s} AS TIMESTAMP), 'Dy')"
  | .dayOfMonth => s!"EXTRACT(DAY FROM {s})"
  | .dayOfYear => s!"EXTRACT(DOY FROM {s})"
  | _ => s

def castFrame (style : DateStyle) (s : String) (frame : TimeFrame) : String :=
  let ts := s!"CAST({s} AS TIMESTAMP)"
  match frame with
  | .time => ts
  | .second => s!"DATE_TRUNC('SECOND', {ts})"
  | .minute => s!"DATE_TRUNC('MINUTE', {ts})"
  | .hour => s!"DATE_TRUNC('HOUR', {ts})"
  | .date => s!"DATE_TRUNC('DAY', {ts})"
  | .month => s!"DATE_TRUNC('MONTH', {ts})"
  | .quarter => s!"DATE_TRUNC('QUARTER', {ts})"
  | .year => s!"DATE_TRUNC('YEAR', {ts})"
  | .weekIndex => s!"EXTRACT(WEEK FROM {ts})"
  | .weekOfMonth => s!"EXTRACT(WEEK FROM {ts}) - EXTRACT(WEEK FROM DATE_TRUNC('MONTH', {ts})) + 1"
  | .monthOfYearIndex => s!"EXTRACT(MONTH FROM {ts})"
  | .monthOfYear =>
    match style with
    | postgres => s!"TO_CHAR({ts}, 'Mon')"
    | databricks => s!"DATE_FORMAT({ts}, 'MMM')"
    | trino => s!"DATE_FORMAT({ts}, '%b')"
    | _ => s!"CASE EXTRACT(MONTH FROM {ts}) {monthNames}"
  | .quarterOfYear => s!"EXTRACT(QUARTER FROM {ts})"
  | .hourOfDay =>
    match style with
    | postgres => s!"EXTRACT('HOUR' FROM {ts})"
    | _ => s!"EXTRACT(HOUR FROM {ts})"
  | .dayOfWeek =>
    match style with
    | postgres => s!"TO_CHAR({ts}, 'Dy')"
    | databricks => s!"DATE_FORMAT({ts}, 'E')"
    | trino => s!"DATE_FORMAT({ts}, '%a')"
    | _ => s!"CASE EXTRACT(DOW FROM {ts}) {dayNames}"
  | .dayOfMonth =>
    match style with
    | postgres => s!"EXTRACT('DAY' FROM {ts})"
    | _ => s!"EXTRACT(DAY FROM {ts})"
  | .dayOfYear =>
    match style with
    | postgres => s!"EXTRACT('DOY' FROM {ts})"
    | _ => s!"EXTRACT(DOY FROM {ts})"
  | _ => s

def sqlServerFrame (s : String) (frame : TimeFrame) : String :=
  let date := s!"CAST({s} AS DATE)"
  let datetime := s!"CAST({s} AS DATETIME)"
  match frame with
  | .time => datetime
  | .second => s!"DATEADD(SECOND, DATEDIFF(SECOND, 0, {datetime}), 0)"
  | .minute => s!"DATEADD(MINUTE, DATEDIFF(MINUTE, 0, {datetime}), 0)"
  | .hour => s!"DATEADD(HOUR, DATEDIFF(HOUR, 0, {datetime}), 0)"
  | .date => s!"CAST({date} AS DATETIME)"
  | .month => s!"DATEADD(MONTH, DATEDIFF(MONTH, 0, {date}), 0)"
  | .quarter => s!"DATEADD(QUARTER, DATEDIFF(QUARTER, 0, {date}), 0)"
  | .year => s!"DATEADD(YEAR, DATEDIFF(YEAR, 0, {date}), 0)"
  | .weekIndex => s!"EXTRACT(WEEK FROM {date})"
  | .weekOfMonth =>
    s!"EXTRACT(WEEK FROM {date}) - EXTRACT(WEEK FROM DATEADD(MONTH, DATEDIFF(MONTH, 0, {date}), 0)) + 1"
  | .monthOfYearIndex => s!"EXTRACT(MONTH FROM {date})"
  | .monthOfYear => s!"LEFT(DATENAME(MONTH, {date}), 3)"
  | .quarterOfYear => s!"DATEPART(QUARTER, {date})"
  | .hourOfDay => s!"DATEPART(HOUR, {datetime})"
  | .dayOfWeek => s!"LEFT(DATENAME(WEEKDAY, {date}), 3)"
  | .dayOfMonth => s!"DATEPART(DAY, {date})"
  | .dayOfYear => s!"DATEPART(Y, {date})"
  | _ => s

def bigQueryFrame (s : String) (datatype : Datatype) (frame : TimeFrame) : String :=
  let dt := datatype.keyword
  let dateTrunc (unit : String) := s!"CAST(DATE_TRUNC(CAST({s} AS DATE), {unit}) AS {dt})"
  let datetimeTrunc (unit : String) := s!"CAST(DATETIME_TRUNC(CAST({s} AS DATETIME), {unit}) AS {dt})"
  match frame with
  | .time => s!"CAST({s} AS TIMESTAMP)"
  | .second => datetimeTrunc "SECOND"
  | .minute => datetimeTrunc "MINUTE"
  | .hour => datetimeTrunc "HOUR"
  | .date => dateTrunc "DAY"
  | .month => dateTrunc "MONTH"
  | .quarter => dateTrunc "QUARTER"
  | .year => dateTrunc "YEAR"
  | .weekIndex => s!"EXTRACT(WEEK FROM {s})"
  | .weekOfMonth => s!"EXTRACT(WEEK FROM {s}) - EXTRACT(WEEK FROM DATE_TRUNC(CAST({s} AS DATE), MONTH)) + 1"
  | .monthOfYearIndex => s!"EXTRACT(MONTH FROM {s})"
  | .monthOfYear => s!"FORMAT_DATETIME('%B', CAST({s} as DATETIME))"
  | .quarterOfYear => s!"EXTRACT(QUARTER FROM {s})"
  | .hourOfDay => s!"CAST({s} AS STRING FORMAT 'HH24')"
  | .dayOfWeek => s!"CAST({s} AS STRING FORMAT 'DAY')"
  | .dayOfMonth => s!"EXTRACT(DAY FROM {s})"
  | .dayOfYear => s!"EXTRACT(DAYOFYEAR FROM {s})"
  | _ => s

def mySqlFrame (s : String) : TimeFrame → String
  | .time => s!"CAST({s} AS DATETIME)"
  | .second => s!"DATE_FORMAT({s}, '%Y-%m-%d %H:%i:%s')"
  | .minute => s!"DATE_FORMAT({s}, '%Y-%m-%d %H:%i:00')"
  | .hour => s!"DATE_FORMAT({s}, '%Y-%m-%d %H:00:00')"
  | .date => s!"DATE({s})"
  | .month => s!"DATE_FORMAT({s}, '%Y-%m-01')"
  | .quarter => s!"MAKEDATE(YEAR({s}), 1) + INTERVAL QUARTER({s}) - 1 QUARTER"
  | .year => s!"MAKEDATE(YEAR({s}), 1)"
  | .weekIndex => s!"WEEK({s}, 3)"
  | .weekOfMonth => s!"WEEK({s}, 3) - WEEK(DATE_FORMAT({s}, '%Y-%m-01'), 3) + 1"
  | .monthOfYearIndex => s!"MONTH({s})"
  | .monthOfYear => s!"DATE_FORMAT({s}, '%b')"
  | .quarterOfYear => s!"QUARTER({s})"
  | .hourOfDay => s!"HOUR({s})"
  | .dayOfWeek => s!"DATE_FORMAT({s}, '%a')"
  | .dayOfMonth => s!"DAYOFMONTH({s})"
  | .dayOfYear => s!"DAYOFYEAR({s})"
  | _ => s

end DateStyle

namespace Dialect

def atFrame (d : Dialect) (sql : String) (frame : TimeFrame) (datatype : Datatype) (weekStart : Weekday) :
    String :=
  match frame.canonical with
  | .raw => sql
  | .week => d.dateStyle.week sql datatype weekStart
  | frame =>
    match d.dateStyle with
    | .snowflake => DateStyle.snowflakeFrame sql frame
    | .sqlServer => DateStyle.sqlServerFrame sql frame
    | .bigQuery => DateStyle.bigQueryFrame sql datatype frame
    | .mySql => DateStyle.mySqlFrame sql frame
    | style => style.castFrame sql frame

def ageParts (start finish : String) : Interval → String
  | .year => s!"DATE_PART('YEAR', AGE({finish}, {start}))"
  | .quarter => s!"DATE_PART('YEAR', AGE({finish}, {start})) * 4 + TRUNC(DATE_PART('month', AGE({finish}, {start}))/3)"
  | .month => s!"DATE_PART('YEAR', AGE({finish}, {start})) * 12 + (DATE_PART('month', AGE({finish}, {start})))"
  | .week => s!"TRUNC(DATE_PART('DAY', AGE({finish}, {start}))/7)"
  | .day => s!"DATE_PART('DAY', AGE({finish}, {start}))"
  | .hour => s!"DATE_PART('DAY', AGE({finish}, {start})) * 24 + DATE_PART('HOUR', AGE({finish}, {start}))"
  | .minute =>
    s!"DATE_PART('DAY', AGE({finish}, {start})) * 24 + DATE_PART('HOUR', AGE({finish}, {start}))" ++
    s!" * 60 + DATE_PART('MINUTE', AGE({finish}, {start}))"
  | .second =>
    s!"DATE_PART('DAY', AGE({finish}, {start})) * 24 + DATE_PART('HOUR', AGE({finish}, {start}))" ++
    s!" * 60 + DATE_PART('MINUTE', AGE({finish}, {start})) * 60 + DATE_PART('SECOND', AGE({finish}, {start}))"

def elapsed (d : Dialect) (start finish : String) (unit : Interval) : String :=
  let keyword := unit.keyword
  match d with
  | snowflake | redshift | duckDb => s!"DATEDIFF('{keyword}', {start}, {finish})"
  | postgres => ageParts start finish unit
  | druid | mySql => s!"TIMESTAMPDIFF({keyword}, {start}, {finish})"
  | sqlServer | azureSynapse | databricks => s!"DATEDIFF({keyword}, {start}, {finish})"
  | trino => s!"DATE_DIFF('{unit.name}', {start}, {finish})"
  | bigQuery =>
    match unit with
    | .second | .minute | .hour =>
      s!"TIMESTAMP_DIFF(CAST({finish} as TIMESTAMP), CAST({start} as TIMESTAMP), {keyword})"
    | .week => s!"DATE_DIFF(CAST({finish} as DATE), CAST({start} as DATE), ISOWEEK)"
    | .year => s!"DATE_DIFF(CAST({finish} as DATE), CAST({start} as DATE), ISOYEAR)"
    | _ => s!"DATE_DIFF(CAST({finish} as DATE), CAST({start} as DATE), {keyword})"

/-- A column converted to a time zone; some dialects cannot convert. -/
def inTimezone? (d : Dialect) (sql timezone : String) (datatype : Datatype) : Option String :=
  let dt := datatype.keyword
  match d with
  | snowflake | databricks =>
    some s!"CAST(CAST(CONVERT_TIMEZONE('{timezone}', {sql}) AS TIMESTAMP_NTZ) AS {dt})"
  | bigQuery => some s!"CAST(DATETIME(CAST({sql} AS TIMESTAMP), '{timezone}') AS {dt})"
  | redshift => some s!"CAST(CAST(CONVERT_TIMEZONE('{timezone}', {sql}) AS TIMESTAMP) AS {dt})"
  | postgres | duckDb =>
    some s!"CAST(CAST({sql} AS TIMESTAMP) at time zone 'utc' at time zone '{timezone}' AS {dt})"
  | trino => some s!"CAST(CAST({sql} AS TIMESTAMP) AT TIME ZONE '{timezone}' AS {dt})"
  | mySql => some s!"CAST(CONVERT_TZ({sql}, 'UTC', '{timezone}') AS {dt})"
  | druid | sqlServer | azureSynapse => none

end Dialect

end SemanticSql
