import SemanticSql.Grain
import SemanticSql.Text.Case

/-!
The SQL dialects and the points on which their syntax differs.
-/
namespace SemanticSql

inductive Dialect where
  | snowflake | bigQuery | redshift | postgres | druid | sqlServer | duckDb | databricks | azureSynapse
  | trino | mySql
  deriving DecidableEq, Repr

namespace Dialect

def all : List Dialect :=
  [snowflake,bigQuery,redshift,postgres,druid,sqlServer,duckDb,databricks,azureSynapse,trino,mySql]

def name : Dialect → String
  | snowflake => "snowflake"
  | bigQuery => "bigquery"
  | redshift => "redshift"
  | postgres => "postgres"
  | druid => "druid"
  | sqlServer => "sql_server"
  | duckDb => "duck_db"
  | databricks => "databricks"
  | azureSynapse => "azure_synapse"
  | trino => "trino"
  | mySql => "mysql"

def ofName? (s : String) : Option Dialect :=
  if s = "duckdb" then some duckDb else all.find? fun d => d.name == s

theorem ofName?_name (d : Dialect) : ofName? d.name = some d := by cases d <;> decide

def ofText? (s : String) : Option Dialect := ofName? (Text.lower (Text.trim s))

def isTransact : Dialect → Bool
  | sqlServer | azureSynapse => true
  | _ => false

def endsWithSemicolon : Dialect → Bool
  | druid | trino => false
  | _ => true

def sortsNullsLast : Dialect → Bool
  | snowflake | bigQuery | redshift | postgres | duckDb | databricks | trino => true
  | _ => false

def ordersByDefault : Dialect → Bool
  | snowflake | redshift | duckDb => true
  | _ => false

def usesTop (d : Dialect) : Bool := d.isTransact

def groupsByAlias : Dialect → Bool
  | bigQuery => true
  | _ => false

def hasMedian : Dialect → Bool
  | druid | postgres | bigQuery | sqlServer | azureSynapse => false
  | _ => true

def hasSymmetricAggregates : Dialect → Bool
  | snowflake | redshift | postgres | duckDb | bigQuery => true
  | _ => false

def ifNull : Dialect → String
  | snowflake | bigQuery | mySql => "ifnull"
  | redshift | druid => "nvl"
  | postgres | databricks | duckDb | trino => "coalesce"
  | sqlServer | azureSynapse => "isnull"

def crossJoinsWithoutKeys : Dialect → Bool
  | redshift => true
  | _ => false

def currentDate : Dialect → String
  | snowflake => "current_date()"
  | bigQuery | databricks | mySql => "CURRENT_DATE()"
  | sqlServer | azureSynapse => "CAST(GETDATE() AS DATE)"
  | _ => "CURRENT_DATE"

/-- A query with one row per day in the column `date`; some dialects cannot make one. -/
def dateSpine? : Dialect → Option String
  | snowflake | redshift =>
    some "select dateadd(day, seq4(), '2000-01-01') as date from table(generator(rowcount => 365*40))"
  | bigQuery => some "select date from unnest(generate_date_array('2000-01-01', '2040-01-01')) as date"
  | postgres | duckDb =>
    some ("select CAST(date AS DATE) as date from generate_series('2000-01-01'::date, '2040-01-01'::date, " ++
      "interval '1 day') as t(date)")
  | databricks =>
    some "select explode(sequence(to_date('2000-01-01'), to_date('2040-01-01'), interval 1 day)) as date"
  | trino =>
    some ("select date from unnest(sequence(DATE '2000-01-01', DATE '2040-01-01', INTERVAL '1' DAY)) as t(date)")
  | sqlServer | azureSynapse =>
    some "select DATEADD(DAY, value, CAST('2000-01-01' AS DATE)) as date from generate_series(0, 365*40)"
  | druid | mySql => none

/-- A date or time between quotes, as a time column of the given storage compares with it. -/
def timeLiteral (d : Dialect) (datatype : Datatype) (body : String) : String :=
  match d with
  | bigQuery => s!"{datatype.keyword}('{body}')"
  | _ => s!"'{body}'"

def funnelElapsed (d : Dialect) (unit start finish : String) : String :=
  let unit := Text.upper unit
  match d with
  | bigQuery => s!"DATE_DIFF(CAST({finish} AS DATE), CAST({start} AS DATE), {unit})"
  | druid | mySql => s!"TIMESTAMPDIFF({unit}, {start}, {finish})"
  | postgres => s!"DATE_PART('{unit}', AGE({finish}, {start}))"
  | trino | duckDb => s!"DATE_DIFF('{unit}', {start}, {finish})"
  | sqlServer | azureSynapse | databricks => s!"DATEDIFF({unit}, {start}, {finish})"
  | snowflake | redshift => s!"DATEDIFF('{unit}', {start}, {finish})"

end Dialect

end SemanticSql
