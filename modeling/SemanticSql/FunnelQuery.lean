import SemanticSql.Plan.Query
import SemanticSql.Scope.Planning

/-! Funnels count events step by step. -/
namespace SemanticSql

namespace Funnel

def linkTag : String := "customer"

def eventsTable : String := "base"

def resultTable : String := "result_cte"

def startColumn : String := "step_1_time"

def stepTable (step : Nat) : String := "step_" ++ toString step

end Funnel

structure FunnelPlan where
  dimensions : List FieldUse
  metrics : List FieldUse
  conditions : List Filter
  having : List Filter
  date : FieldUse
  link : FieldUse
  steps : List (List Filter)
  interval : Interval
  within : Int
  deriving Repr

namespace FunnelPlan

variable (f : FunnelPlan)

def eventFields : List FieldUse :=
  Session.addUses f.dimensions (f.date :: f.link :: (f.steps.map Filter.fieldsOf).flatten)

def eventsPlan : Plan where
  metrics := f.metrics
  dimensions := f.eventFields
  conditions := f.conditions
  raw := true

def eventColumn (u : FieldUse) : String := Funnel.eventsTable ++ "." ++ u.column

def step (c : Context) (n : Nat) (filters : List Filter) : Compile Select := do
  let conditions ← Filter.sqlOf c (fun u => pure (eventColumn u)) filters
  if n = 1 then
    return {
      items := [.allOf Funnel.eventsTable,.column (eventColumn f.date) Funnel.startColumn]
      source := Funnel.eventsTable
      conditions }
  else
    let previous := Funnel.stepTable (n - 1)
    let start := previous ++ "." ++ Funnel.startColumn
    let elapsed := c.dialect.funnelElapsed f.interval.keyword start (eventColumn f.date)
    return {
      items := [.allOf Funnel.eventsTable,.column start Funnel.startColumn]
      source := Funnel.eventsTable
      joins := [.on "JOIN" previous
        (eventColumn f.link ++ "=" ++ previous ++ "." ++ f.link.column ++ " and " ++
          previous ++ "." ++ f.date.column ++ "<" ++ eventColumn f.date)]
      conditions := conditions ++ [elapsed ++ " <= " ++ toString f.within] }

def stepTables (c : Context) (n : Nat) : List (List Filter) → Compile Tables
  | [] => pure []
  | filters :: rest => do
    let select ← f.step c n filters
    let others ← stepTables c (n + 1) rest
    return (Funnel.stepTable n, .ofSelect select) :: others

def counts (s : Session) (n : Nat) : Except Error Select := do
  let table := Funnel.stepTable n
  let measures ← f.metrics.mapM fun u => do
    .ok (SelectItem.column (← s.aggregateColumn u (table ++ "." ++ u.column)) u.column)
  .ok {
    items :=
      [.column ("'Step " ++ toString n ++ "'") "step",.column (toString n) "step_order"] ++
      (f.dimensions.map fun u => SelectItem.column (table ++ "." ++ u.column) u.column) ++ measures
    source := table
    groups := f.dimensions.map fun u =>
      if s.context.dialect.groupsByAlias then u.column else table ++ "." ++ u.column }

end FunnelPlan

namespace Scope

variable (s : Scope)

def eventDate (known : Option FieldUse) : List FieldUse → Except Error FieldUse
  | [] =>
    match known with
    | some date => .ok date
    | none => .error (.query .funnelWithoutDate)
  | metric :: rest =>
    match metric.view.defaultDate with
    | none => eventDate known rest
    | some name => do
      let date ← s.project.fieldFrom metric.view name
      match known with
      | none => eventDate (some date) rest
      | some first =>
        if first.id = date.id then eventDate known rest
        else .error (.query (.funnelTwoDates first.id date.id))

def linkIn? (view : View) : Option FieldUse :=
  (view.fieldsWithTag Funnel.linkTag).head?.map fun field => { view, field, grain := none }

def linkAmong (missing : Error) : List String → Except Error FieldUse
  | [] => .error missing
  | name :: rest => do
    let view ← s.project.view name
    match linkIn? view with
    | some link => .ok link
    | none => linkAmong missing rest

def linkField (metrics : List FieldUse) : Except Error FieldUse :=
  let missing : Error := .query (.funnelWithoutLink (metrics.map FieldUse.id))
  match metrics with
  | [] => .error missing
  | first :: _ =>
    match linkIn? first.view with
    | some link => .ok link
    | none =>
      s.linkAmong missing
        ((s.project.graph.reachable first.view.name).filter fun name => name != first.view.name)

def bindStep (nested : Nested) (clause : Clause) : Compile (List Filter) := do
  let (filters, tables) ← (s.bind nested clause).run []
  if !tables.isEmpty then .fail (.query .funnelSubquery)
  else
    match filters.find? Filter.isMeasureFilter with
    | some f => .fail (.query (.funnelMeasures (f.fields.map FieldUse.id)))
    | none => return filters

def funnelPlan (nested : Nested) (r : Request) (f : Funnel) : Compile (FunnelPlan × Tables) := do
  let window ← f.window
  let interval ← window.interval
  let plan ← s.plan nested { r with having := none, orderBy := none, limit := none, funnel := none }
  if plan.metrics.isEmpty then .fail (.query .funnelWithoutMetric)
  else
    let (filters, tables) ← (s.bindAll nested r.having.toList).run plan.tables
    let having := plan.having ++ filters
    let metrics := Session.addUses plan.metrics ((Filter.fieldsOf having).filter FieldUse.isMeasure)
    match metrics.find? fun u => u.field.isCumulative || u.field.isFormula with
    | some u => .fail (.query (.funnelMetric u.id))
    | none =>
      let date ← s.eventDate none metrics
      let link ← s.linkField metrics
      let steps ← f.steps.mapM (s.bindStep nested)
      return ({
        dimensions := plan.dimensions, metrics, conditions := plan.conditions, having, date, link, steps
        interval, within := window.value }, tables)

def funnelQuery (nested : Nested) (r : Request) (spec : Funnel) : Compile Query := do
  let (f, tables) ← s.funnelPlan nested r spec
  let events ← f.eventsPlan.query s.toSession s.topic
  let steps ← f.stepTables s.context 1 f.steps
  let counts ← (List.range f.steps.length).mapM fun n => (f.counts s.toSession (n + 1) : Compile _)
  let conditions ← Filter.sqlOf s.context (fun u => pure (Funnel.resultTable ++ "." ++ u.column)) f.having
  let order ← s.order r
  return .mk
    (tables ++ (Funnel.eventsTable, events) :: steps ++ [(Funnel.resultTable, .mk [] (.union counts) [] none)])
    (.select { items := [.all], source := Funnel.resultTable, conditions })
    (order.map fun o => ⟨o.u.column,o.descending⟩) r.limit

end Scope

end SemanticSql
