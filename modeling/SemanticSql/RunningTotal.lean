import SemanticSql.Plan.Query
import SemanticSql.Scope

/-! Running totals. A cumulative measure adds up another measure over all rows up to each date. -/
namespace SemanticSql

def dateSpine : String := "date_spine"

def spineDate : String := dateSpine ++ ".date"

structure RunningTotal where
  metric : FieldUse
  measure : FieldUse
  date : FieldUse
  deriving Repr

namespace RunningTotal

def ofMetric (s : Session) (metric : FieldUse) : Except Error RunningTotal := do
  match metric.field.measure with
  | none => .error (.model (.cumulativeMeasure metric.id))
  | some name =>
    let measure ← s.project.fieldFrom metric.view name
    if !measure.isMeasure || measure.field.isCumulative || measure.field.isFormula then
      .error (.query (.cumulativeTarget metric.id measure.id))
    else
      match ← s.project.canonDate (if metric.field.canonDate.isSome then metric else measure) with
      | some date => .ok { metric, measure, date }
      | none => .error (.query (.cumulativeDate metric.id measure.view.name))

variable (t : RunningTotal)

def rowsTable : String := "subquery_" ++ t.metric.view.name ++ "_" ++ t.metric.field.name

def totalsTable : String := "aggregated_" ++ t.metric.view.name ++ "_" ++ t.metric.field.name

def day : FieldUse := t.date.atGrain (some (.time .date))

def frame? (u : FieldUse) : Option TimeFrame :=
  match u.grain with
  | some (.time frame) => if u.id == t.date.id then some frame.canonical else none
  | _ => none

def frames : List TimeFrame := [.raw,.time,.date,.week,.month,.quarter,.year]

/-- The rows that are added up: one for each row of the measure, by day and by the dimensions of the query. -/
def rowsPlan (p : Plan) (condition : Option String) : Plan where
  metrics := [t.measure]
  dimensions := (p.dimensions.filter fun u => (t.frame? u).isNone) ++ [t.day]
  conditions := p.conditions ++ condition.toList.map fun sql => .literal [.text sql]
  raw := true

def rowsQuery (s : Scope) (p : Plan) : Compile Query := do
  let condition ← t.metric.field.cumulativeWhere.mapM (s.toSession.expand t.metric.view t.metric.id)
  (t.rowsPlan p condition).query s.toSession s.topic

def truncated (c : Context) (sql : String) (frame : TimeFrame) : String :=
  c.dialect.atFrame sql frame .date c.weekStart

def dimensionSql (c : Context) (u : FieldUse) : Except Error String :=
  match t.frame? u with
  | none => .ok (t.rowsTable ++ "." ++ u.column)
  | some frame =>
    if frames.contains frame then .ok (truncated c spineDate frame)
    else .error (.query (.cumulativeGrain t.metric.id t.date.id u.column))

def period? (dimensions : List FieldUse) : Option TimeFrame := dimensions.findSome? t.frame?

structure Range where
  condition : String
  days : List String
  deriving DecidableEq, Repr

/-- Without a date, the total runs up to today. A period longer than a day is stood for by its first day. -/
def range (c : Context) (period : Option TimeFrame) : Range :=
  let day := t.rowsTable ++ "." ++ t.day.column
  let today := c.dialect.currentDate
  let past := spineDate ++ "<=" ++ today
  match period with
  | none => ⟨day ++ "<=" ++ spineDate,[spineDate ++ "=" ++ today]⟩
  | some .raw | some .time | some .date => ⟨day ++ "<=" ++ spineDate,[past]⟩
  | some frame =>
    ⟨truncated c day frame ++ "<=" ++ spineDate,[past,spineDate ++ "=" ++ truncated c spineDate frame]⟩

def totalsSelect (s : Session) (dimensions : List FieldUse) : Except Error Select := do
  let c := s.context
  let columns ← dimensions.mapM fun u => do .ok ((← t.dimensionSql c u), u.column)
  let total ← s.aggregateColumn t.measure (t.rowsTable ++ "." ++ t.measure.column)
  let range := t.range c (t.period? dimensions)
  .ok {
    items := columns.map (fun (sql, name) => SelectItem.column sql name) ++ [.column total t.metric.column]
    source := dateSpine
    joins := [.on "JOIN" t.rowsTable range.condition]
    conditions := range.days
    groups := columns.map fun (sql, name) => if c.dialect.groupsByAlias then name else sql }

def tables (s : Scope) (p : Plan) : Compile Tables := do
  let rows ← t.rowsQuery s p
  let totals ← t.totalsSelect s.toSession p.dimensions
  return [(t.rowsTable, rows),(t.totalsTable, .ofSelect totals)]

end RunningTotal

namespace Session

variable (s : Session)

def isCumulative (u : FieldUse) : Except Error Bool :=
  if u.field.isCumulative then .ok true
  else if u.field.isFormula then do .ok ((← s.measureLeaves u).any fun leaf => leaf.field.isCumulative)
  else .ok false

/-- What a metric contributes: itself, or the leaves of a formula with a running total. -/
def totalLeaves (u : FieldUse) : Except Error (List FieldUse) := do
  if (← s.isCumulative u) && !u.field.isCumulative then s.measureLeaves u else .ok [u]

end Session

structure TotalsPlan where
  plan : Plan
  totals : List RunningTotal
  others : List FieldUse
  deriving Repr

namespace TotalsPlan

def baseTable : String := "base"

variable (t : TotalsPlan)

def source : Except Error String :=
  match t.others, t.totals with
  | _ :: _, _ => .ok baseTable
  | [], first :: _ => .ok first.totalsTable
  | [], [] => .error (.query .noCumulativeMetric)

def basePlan : Plan where
  metrics := t.others
  dimensions := t.plan.dimensions
  conditions := t.plan.conditions
  forceGroups := t.plan.forceGroups

def baseTables (s : Scope) : Compile Tables := do
  if t.others.isEmpty then return [] else return [(baseTable, ← t.basePlan.query s.toSession s.topic)]

def columns (source : String) : Dict String :=
  Dict.ofList (
    (t.plan.dimensions.map fun u => (u.qualifiedName, source ++ "." ++ u.column)) ++
    (t.others.map fun u => (u.qualifiedName, baseTable ++ "." ++ u.column)) ++
    t.totals.map fun total => (total.metric.qualifiedName, total.totalsTable ++ "." ++ total.metric.column))

def column (s : Session) (source : String) (u : FieldUse) : Except Error String :=
  s.readFrom (fun u => (t.columns source).get? u.qualifiedName)
    (fun u => .query (.cumulativeField u.qualifiedName)) s.fuel u

def joinOf (source : String) (total : RunningTotal) : TableJoin :=
  let equalities := t.plan.dimensions.map fun u =>
    source ++ "." ++ u.column ++ "=" ++ total.totalsTable ++ "." ++ u.column
  .on "LEFT JOIN" total.totalsTable (if equalities.isEmpty then "1=1" else " and ".intercalate equalities)

def sortKey (column : FieldUse → Except Error String) (o : SortField) : Except Error SortKey := do
  if (t.plan.dimensions ++ t.plan.metrics).any fun u => u.same o.u then .ok ⟨o.u.column,o.descending⟩
  else .ok ⟨← column o.u,o.descending⟩

def sortKeys (d : Dialect) (column : FieldUse → Except Error String) : Except Error (List SortKey) :=
  if t.plan.order.isEmpty then .ok (t.plan.defaultOrder d) else t.plan.order.mapM (t.sortKey column)

def select (s : Session) (source : String) : Compile Select := do
  let items ← (t.plan.dimensions ++ t.plan.metrics).mapM fun u => (do
    return SelectItem.column (← t.column s source u) u.column : Compile _)
  let conditions ← Filter.sqlOf s.context (fun u => t.column s source u) t.plan.having
  return {
    items, source, conditions
    joins := (t.totals.filter fun total => total.totalsTable != source).map (t.joinOf source) }

end TotalsPlan

namespace Scope

def wantedMeasures (p : Plan) : List FieldUse :=
  Session.addUses p.metrics ((Filter.fieldsOf p.having).filter FieldUse.isMeasure)

def totalsQuery (s : Scope) (p : Plan) : Compile Query := do
  checkNames [] (p.dimensions ++ p.metrics)
  let leaves := (← (wantedMeasures p).mapM fun u => (s.toSession.totalLeaves u : Compile _)).flatten
  let cumulative := Session.addUses [] (leaves.filter fun u => u.field.isCumulative)
  let others := Session.addUses [] (leaves.filter fun u => !u.field.isCumulative)
  let spine ← match s.context.dialect.dateSpine? with
    | some sql => pure sql
    | none => .fail (.query (.cumulativeUnsupported s.context.dialect))
  let totals ← cumulative.mapM fun metric => do
    let total ← RunningTotal.ofMetric s.toSession metric
    return (total, ← total.tables s p)
  let t : TotalsPlan := { plan := p, totals := totals.map Prod.fst, others }
  let base ← t.baseTables s
  let source ← t.source
  let select ← t.select s.toSession source
  let order ← t.sortKeys s.context.dialect (t.column s.toSession source)
  return .mk (p.tables ++ (dateSpine, .ofText spine) :: (totals.map Prod.snd).flatten ++ base)
    (.select select) order p.limit

end Scope

end SemanticSql
