import SemanticSql.Plan.Layout
import SemanticSql.Plan.WindowFilter

/-! The query of a plan: one select over the joined views, with the tables it reads before it. -/
namespace SemanticSql

def windowResult : String := "measure_window_functions"

/-- By default the first metric descends, or the first dimension ascends, where the dialect wants an order. -/
def Plan.defaultOrder (p : Plan) (d : Dialect) : List SortKey :=
  if d.ordersByDefault then
    match p.metrics, p.dimensions with
    | metric :: _, _ => [⟨metric.column,true⟩]
    | [], dimension :: _ => [⟨dimension.column,false⟩]
    | [], [] => []
  else []

def Plan.check (p : Plan) : Except Error Unit :=
  if p.metrics.isEmpty && p.dimensions.isEmpty then .error (.query .nothingSelected)
  else if p.isUngrouped && !p.having.isEmpty then .error (.argument .havingWithoutGroups)
  else if p.isUngrouped && !p.order.isEmpty then .error (.argument .orderByWithoutGroups)
  else checkNames [] (p.dimensions ++ p.metrics)

namespace Layout

variable (l : Layout)

def hiddenMetrics (lifted : List Filter) : List FieldUse :=
  (Session.addUses l.plan.metrics ((Filter.fieldsOf lifted).filter FieldUse.isWindowMeasure)).drop
    l.plan.metrics.length

abbrev Column := String × String

def rowColumn (u : FieldUse) : Compile Column := do return (← l.toSession.rowSql u, u.column)

def addRowColumns (columns : List Column) (uses : List FieldUse) : Compile (List Column) :=
  uses.foldlM
    (fun columns u => do
      if columns.any fun c => c.2 == u.column then return columns
      else return columns ++ [← l.rowColumn u])
    columns

def columns (hidden : List FieldUse) : Compile (List Column) := do
  let dimensions ← l.plan.dimensions.mapM l.rowColumn
  if l.plan.isUngrouped then
    l.plan.metrics.foldlM
      (fun columns u => do l.addRowColumns columns (← l.toSession.measureLeaves u)) dimensions
  else
    let measures ← (l.plan.metrics ++ hidden).mapM fun u => do return (← l.column u, u.column)
    return dimensions ++ measures

def groups : Compile (List String) :=
  if l.plan.isUngrouped then return []
  else l.plan.dimensions.mapM fun u =>
    if l.context.dialect.groupsByAlias then pure u.column else l.toSession.rowSql u

def sortKey (columns : List Column) (wrapped : Bool) (o : SortField) : Compile SortKey := do
  if columns.any fun c => c.2 == o.u.column then return ⟨o.u.column,o.descending⟩
  else if wrapped then .fail (.query (.windowOrder o.u.id))
  else return ⟨← l.column o.u,o.descending⟩

def sortKeys (columns : List Column) (wrapped : Bool) : Compile (List SortKey) :=
  if l.plan.isUngrouped then return []
  else if l.plan.order.isEmpty then return l.plan.defaultOrder l.context.dialect
  else l.plan.order.mapM (l.sortKey columns wrapped)

structure Sources where
  tables : Tables
  source : String
  joins : List TableJoin
  deriving Repr

def sources : Compile Sources := do
  let windowed ← l.toSession.windowDimensions l.plan.fields
  let names := windowed.keys
  let windowTables ← windowed.mapM fun (view, uses) => do
    return (windowTableName view, ← l.toSession.windowTable uses)
  let source ← l.toSession.tableSql names l.joins.base
  let joins ← l.joins.joins.mapM (l.toSession.joinSql names)
  let keptValues ← l.keptValues
  let kept ← keptValues.mapM fun k => do
    let table ← l.keptTable k source joins
    let join ← l.keptJoin k
    return ((k.table, table), join)
  return {
    tables := l.plan.tables ++ windowTables ++ kept.map Prod.fst
    source
    joins := joins ++ kept.map Prod.snd }

def query : Compile Query := do
  l.plan.check
  let split ← Filter.liftWindows l.plan.having
  let sources ← l.sources
  let columns ← l.columns (l.hiddenMetrics split.lifted)
  let conditions ← l.conditionsSql
  let groups ← l.groups
  let having ← Filter.sqlOf l.context l.column split.kept
  let select : Select := {
    items := columns.map fun c => .column c.1 c.2
    source := sources.source, joins := sources.joins, conditions, groups, having }
  if split.lifted.isEmpty then
    let order ← l.sortKeys columns false
    return .mk sources.tables (.select select) order l.plan.limit
  else
    let conditions ← Filter.sqlOf l.context (fun u => pure u.column) split.lifted
    let order ← l.sortKeys columns true
    return .mk (sources.tables ++ [(windowResult, .ofSelect select)])
      (.select { items := [.all], source := windowResult, conditions }) order l.plan.limit

end Layout

def Plan.query (s : Session) (topic : Option Topic) (p : Plan) : Compile Query := do
  let joins ← p.joinPlan s topic
  Layout.query { toSession := s, plan := p, joins }

end SemanticSql
