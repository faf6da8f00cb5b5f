import SemanticSql.Dialect.Time
import SemanticSql.Filter.Condition
import SemanticSql.Session
import SemanticSql.Sql.Tier

/-! The SQL of fields before rows are grouped: dimensions at their grain, and the columns that measures aggregate. -/
namespace SemanticSql

namespace FieldUse

def template (u : FieldUse) : String := u.field.sql.getD ("$\x7bTABLE\x7d." ++ u.field.name)

def windowSql (u : FieldUse) : String := u.view.name ++ "." ++ u.windowColumn

end FieldUse

abbrev Expand := FieldUse → Compile String

namespace Session

variable (s : Session)

def expandWith (sub : Expand) (view : View) (owner template : String) : Compile String := do
  let rendered ← s.render template
  let parts ← (Reference.parts rendered).mapM fun
    | .text t => pure t
    | .name token =>
      if token = Reference.table then pure view.name
      else do sub (← s.reference view owner token)
  return String.join parts

/-- A time column in the timezone of the query. A dialect that cannot convert leaves the column as it is. -/
def inTimezone (u : FieldUse) (sql : String) : String :=
  match s.context.timezone, u.field.convertTimezone.getD s.context.convertsTimezone with
  | some timezone, true => (s.context.dialect.inTimezone? sql timezone u.field.datatype).getD sql
  | _, _ => sql

def timeSql (u : FieldUse) (sql : String) : String :=
  let frame := match u.grain with
    | some (.time frame) => frame
    | _ => .raw
  s.context.dialect.atFrame (s.inTimezone u sql) frame u.field.datatype s.context.weekStart

def durationSql (sub : Expand) (u : FieldUse) : Compile String :=
  match u.grain, u.field.sqlStart, u.field.sqlEnd with
  | some (.duration interval), some start, some finish => do
    let start ← s.expandWith sub u.view u.id start
    let finish ← s.expandWith sub u.view u.id finish
    return s.context.dialect.elapsed start finish interval
  | some (.duration _), _, _ => .fail (.query (.durationEnds u.id))
  | _, _, _ => .fail (.query (.durationInterval u.id u.field.name))

def caseSql (sub : Expand) (u : FieldUse) (table : CaseTable) : Compile String := do
  let branches ← table.branches.mapM fun b => do
    let condition ← s.expandWith sub u.view u.id b.sql
    return "WHEN " ++ condition ++ " THEN " ++ Sql.quote b.label
  let otherwise := table.otherwise.toList.map fun label => "ELSE " ++ Sql.quote label
  return " ".intercalate ("CASE" :: branches ++ otherwise ++ ["END"])

def dimensionSql (sub : Expand) (u : FieldUse) : Compile String :=
  match u.field.role, u.field.type with
  | .group, .duration => s.durationSql sub u
  | .group, _ => do return s.timeSql u (← s.expandWith sub u.view u.id u.template)
  | _, type =>
    if u.field.isWindowDimension then return u.windowSql
    else
      match u.field.cases with
      | some table => s.caseSql sub u table
      | none => do
        let sql ← s.expandWith sub u.view u.id u.template
        return if type = .tier then Tier.sql u.field.tiers sql else sql

def measuredSql (sub : Expand) (u : FieldUse) : Compile String :=
  match u.field.type, u.field.sql with
  | .cumulative, _ => .fail (.query (.cumulativeAggregate u.id))
  | .number, _ => .fail (.query (.numberColumn u.id))
  | _, some sql => s.expandWith sub u.view u.id sql
  | .count, none =>
    match u.view.primaryKey? with
    | some key => sub { view := u.view, field := key, grain := none }
    | none =>
      if u.field.filters.isEmpty && u.field.nonAdditive.isNone then return "*"
      else .fail (.query (.countWithoutKey u.id u.view.name))
  | _, none => .fail (.query (.noSql u.id))

def keptConditions (sub : Expand) (k : KeptValue) : Compile (List String) := do
  let first := (← sub k.dimension) ++ "=" ++ k.table ++ "." ++ k.column
  let others ← k.groupings.mapM fun g => do
    return (← sub g) ++ "=" ++ k.table ++ "." ++ g.groupingColumn
  return first :: others

def measureConditions (sub : Expand) (u : FieldUse) : Compile (List String) := do
  let kept ← match ← (s.keptValue u : Compile _) with
    | some k => keptConditions sub k
    | none => pure []
  let filters ← u.field.filters.mapM fun filter => do
    let target ← s.project.fieldFrom u.view filter.field
    let sql ← sub target
    s.context.literalSql target sql filter.value
  return kept ++ filters

def measureSql (sub : Expand) (u : FieldUse) : Compile String := do
  let base ← s.measuredSql sub u
  match ← s.measureConditions sub u with
  | [] => return base
  | conditions => return "CASE WHEN " ++ " AND ".intercalate conditions ++ " THEN " ++ base ++ " END"

/-- What is remembered of a field: dimensions per grain, measures apart from them. -/
def memoKey (u : FieldUse) : String := if u.isMeasure then u.id ++ "#raw" else u.qualifiedName

/-- Expands a field whose references are followed for at most `n` steps; `stack` holds the fields that are being
expanded. -/
def rowSqlFrom : Nat → List String → Expand
  | 0, stack, u => .fail (cycleError stack u.id)
  | n + 1, stack, u => do
    match ← Compile.known? (memoKey u) with
    | some sql => return sql
    | none =>
      if stack.contains u.id then .fail (cycleError stack u.id)
      else
        let sub := rowSqlFrom n (u.id :: stack)
        let sql ← if u.isMeasure then s.measureSql sub u else s.dimensionSql sub u
        Compile.remember (memoKey u) sql
        return sql

def rowSqlIn (stack : List String) : Expand := s.rowSqlFrom s.fuel stack

def rowSql : Expand := s.rowSqlIn []

def expand (view : View) (owner template : String) : Compile String :=
  s.expandWith s.rowSql view owner template

def windowFunctionSql (u : FieldUse) : Compile String :=
  s.expandWith (s.rowSqlIn [u.id]) u.view u.id u.template

end Session

end SemanticSql
