import SemanticSql.Document.Request
import SemanticSql.Scope

/-!
The plan of a request: its fields and filters, with the filters that its views and its topic add for everyone
and for this user.
-/
namespace SemanticSql

abbrev Nested := Request → Compile Query

namespace Scope

variable (s : Scope)

def readSubquery (value : Value) : Except Error (Request × String) :=
  match (value.get? "query").filter Value.isObject, (value.get? "field").bind Value.str? with
  | some query, some field =>
    match Document.readRequest query with
    | none => .error (.parse .subquery)
    | some r =>
      let unlimited := (value.get? "apply_limit").bind Value.bool? == some false
      .ok (if unlimited then { r with limit := none } else r, field)
  | _, _ => .error (.query (.subqueryKeys value.compact))

def subqueryColumn (r : Request) (u : FieldUse) : Except Error String :=
  match (s.found r.dimensions).find? fun d => d.id == u.id with
  | some d => .ok d.column
  | none => .error (.query (.subqueryField u.id))

def subquery (nested : Nested) : Subquery := fun value => do
  let (r, name) ← (readSubquery value : Compile _)
  let u ← (s.field name : Compile _)
  let column ← (s.subqueryColumn r u : Compile _)
  let query ← (nested r : Compile _)
  let table := "filter_subquery_" ++ toString (← get).length
  modify fun tables => tables ++ [(table, query)]
  return (table, column)

def bind (nested : Nested) (clause : Clause) : Binding (List Filter) := do
  let filters ← Filter.bindClause s.project (s.subquery nested) clause
  (Filter.fieldsOf filters).forM fun u => (s.checkAccess u : Compile _)
  return filters

def bindAll (nested : Nested) : List Clause → Binding (List Filter)
  | [] => pure []
  | clause :: rest => do
    let first ← s.bind nested clause
    let others ← bindAll nested rest
    return first ++ others

def firstOfEach {α : Type} (seen : List (String × String)) : List ((String × String) × α) → List α
  | [] => []
  | (key, a) :: rest =>
    if seen.contains key then firstOfEach seen rest else a :: firstOfEach (key :: seen) rest

def bindAlways (owner : View) (filters : List FieldFilter) : Except Error (List ((String × String) × Filter)) :=
  filters.mapM fun f => do
    let filter ← Filter.ofAlways s.project owner f
    .ok (((filter.fields.head?.map FieldUse.qualifiedName).getD "", f.value), filter)

def fromTopic {α : Type} (add : Topic → View → Except Error (List α)) : Except Error (List α) :=
  match s.topic with
  | none => .ok []
  | some t => do add t (← s.project.view t.baseView)

def alwaysFilters (views : NameSet) : Except Error (List Filter) := do
  let owners ← views.mapM s.project.view
  let ofViews ← owners.mapM fun v => s.bindAlways v v.alwaysFilters
  let ofTopic ← s.fromTopic fun t base => s.bindAlways base t.alwaysFilters
  .ok (firstOfEach [] (ofViews.flatten ++ ofTopic))

def accessFilters (views : NameSet) : Except Error (List Filter) := do
  let attributes := s.context.userAttributes
  let lifted (view : String) : Bool := match s.topic with
    | some t => t.overridesAccessFilters view
    | none => false
  let ofViews ← (views.filter fun v => !lifted v).mapM fun name => do
    let view ← s.project.view name
    Filter.ofAccess s.project attributes view view.accessFilters
  let ofTopic ← s.fromTopic fun t base => Filter.ofAccess s.project attributes base t.accessFilters
  .ok (ofViews.flatten ++ ofTopic)

def checkRoles (metrics dimensions : List FieldUse) : Except Error Unit :=
  match metrics.find? (fun u => !u.isMeasure), dimensions.find? FieldUse.isMeasure with
  | some u, _ => .error (.query (.dimensionAsMetric u.id))
  | none, some u => .error (.query (.measureAsDimension u.id))
  | none, none => .ok ()

/-- The plan of a request. Filters that compare an aggregate apply to groups, whichever clause they stand in. -/
def plan (nested : Nested) (r : Request) : Compile Plan := do
  let metrics ← s.fields r.metrics
  let dimensions ← s.fields r.dimensions
  checkRoles metrics dimensions
  let (filters, tables) ← (s.bindAll nested (r.filter.toList ++ r.having.toList)).run []
  let conditions := filters.filter fun f => !f.isMeasureFilter
  let having := filters.filter Filter.isMeasureFilter
  let views ← s.toSession.viewsOf []
    (metrics ++ dimensions ++ Filter.fieldsOf conditions ++ Filter.fieldsOf having)
  let always ← s.alwaysFilters views
  let access ← s.accessFilters views
  let order ← s.order r
  return {
    metrics, dimensions, having, order, tables
    conditions := always ++ access ++ conditions
    limit := r.limit
    forceGroups := r.forceGroupBy }

end Scope

end SemanticSql
