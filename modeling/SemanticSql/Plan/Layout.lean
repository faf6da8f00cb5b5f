import SemanticSql.Expansion.Aggregate
import SemanticSql.Plan

/-!
The tables that a query reads: the joined views, the tables that compute window dimensions, and the tables of
kept values.
-/
namespace SemanticSql

structure Layout extends Session where
  plan : Plan
  joins : JoinPlan
  deriving Repr

def windowTableName (view : String) : String := view ++ "_window_functions"

namespace Session

variable (s : Session)

def windowDimensionsFrom : Nat → FieldUse → Except Error (List FieldUse)
  | 0, _ => .ok []
  | n + 1, u =>
    if u.field.isWindowDimension then .ok [u]
    else do
      let references ← s.referencedFields u
      let found ← (references.filter fun r => !r.sameField u).mapM (windowDimensionsFrom n)
      .ok found.flatten

def groupByView (uses : List FieldUse) : Dict (List FieldUse) :=
  uses.foldl
    (fun all u =>
      let known := (Dict.get? all u.view.name).getD []
      if known.any fun v => v.field.name == u.field.name then all
      else Dict.insert u.view.name (known ++ [u]) all)
    []

def windowDimensions (uses : List FieldUse) : Except Error (Dict (List FieldUse)) := do
  let found ← uses.mapM (s.windowDimensionsFrom s.fuel)
  .ok ((groupByView found.flatten).map fun e =>
    (e.1, e.2.mergeSort fun a b => a.field.name ≤ b.field.name))

def tableSql (windowed : List String) (view : View) : Except Error String :=
  if windowed.contains view.name then .ok (windowTableName view.name ++ " " ++ view.name) else s.source view

def joinSql (windowed : List String) (j : Join) : Compile TableJoin := do
  let target ← s.project.view j.target
  let table ← s.tableSql windowed target
  if j.kind = .cross then return .cross table
  else
    let base ← s.project.view j.base
    let condition ← s.expand base ("the join from " ++ j.base ++ " to " ++ j.target) j.condition
    return .on j.kind.keyword table condition

def windowTable (uses : List FieldUse) : Compile Query := do
  match uses with
  | [] => .fail (.query .noWindowDimension)
  | first :: _ =>
    let view := first.view
    let columns ← uses.mapM fun u => do
      let views ← s.windowViews u
      let sql ← s.windowFunctionSql u
      return (views, SelectItem.column sql u.windowColumn)
    let required := columns.foldl (fun all c => NameSet.union all c.1) []
    let source ← s.source view
    let joins ←
      if required.length > 1 then do
        let plan ← JoinPlan.build s.project required [view.name] none
        if plan.base.name ≠ view.name then Compile.fail (.query (.windowViews view.name))
        else plan.joins.mapM (s.joinSql [])
      else pure []
    return .ofSelect { items := columns.map Prod.snd ++ [.allOf view.name], source, joins }

end Session

namespace Layout

variable (l : Layout)

def column (u : FieldUse) : Compile String := l.toSession.groupedSql l.joins.symmetric u

def conditionsSql : Compile (List String) := Filter.sqlOf l.context l.column l.plan.conditions

def aggregated : List FieldUse :=
  (l.plan.metrics ++ Filter.fieldsOf l.plan.having ++ l.plan.order.map SortField.u).filter FieldUse.isMeasure

def addKept (known : List KeptValue) (measures : List FieldUse) : Except Error (List KeptValue) :=
  measures.foldlM
    (fun known m => do
      match ← l.toSession.keptValue m with
      | some k => .ok (if known.any fun other => other.table == k.table then known else known ++ [k])
      | none => .ok known)
    known

def keptValues : Except Error (List KeptValue) := do
  let found ← l.aggregated.foldlM
    (fun known u => do l.addKept known (← l.toSession.measureLeaves u)) []
  .ok (found.mergeSort fun a b => a.table ≤ b.table)

def keptGroups (k : KeptValue) : List FieldUse :=
  Session.addUses k.groupings
    (l.plan.dimensions.filter fun d => k.definition.followsQuery || d.sameField k.dimension)

def keptTable (k : KeptValue) (source : String) (joins : List TableJoin) : Compile Query := do
  let grouped ← (l.keptGroups k).mapM fun u => do
    let sql ← l.toSession.rowSql u
    return (sql, u.groupingColumn)
  let sql ← l.toSession.rowSql k.dimension
  let conditions ← l.conditionsSql
  return .ofSelect {
    items := grouped.map (fun (sql, name) => SelectItem.column sql name) ++
      [.column (k.definition.keep.keyword ++ "(" ++ sql ++ ")") k.column]
    source, joins, conditions
    groups := grouped.map fun (sql, name) => if l.context.dialect.groupsByAlias then name else sql }

def keptEquality (nullsEqual : Bool) (d : Dialect) (sql column : String) : String :=
  if !nullsEqual then sql ++ "=" ++ column
  else if d = .snowflake then "equal_null(" ++ sql ++ ", " ++ column ++ ")"
  else s!"({sql}={column} OR ({sql} IS NULL AND {column} IS NULL))"

def keptJoin (k : KeptValue) : Compile TableJoin := do
  let conditions ← (l.keptGroups k).mapM fun u => do
    let sql ← l.toSession.rowSql u
    return keptEquality k.definition.nullsEqual l.context.dialect sql (k.table ++ "." ++ u.groupingColumn)
  return .on "LEFT JOIN" k.table (if conditions.isEmpty then "1=1" else " AND ".intercalate conditions)

end Layout

end SemanticSql
