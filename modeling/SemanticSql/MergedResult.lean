import SemanticSql.JoinGraph.Component
import SemanticSql.SingleQuery

/-! Merged results. Metrics that cannot be joined are answered by several queries, one for each date and merge group,
whose results are joined on the dimensions of the request. -/
namespace SemanticSql

structure MergeGroup where
  views : String
  date : Option FieldUse
  metrics : List FieldUse
  deriving Repr

structure MergePart extends MergeGroup where
  table : String
  dimensions : List FieldUse
  deriving Repr

inductive FilterItem where
  | spec (filter : FilterSpec)
  | text (sql : String)
  deriving Repr

namespace FilterItem

def ofClause : Clause → List FilterItem
  | .text s => if (Text.trim s).isEmpty then [] else [text s]
  | .list specs => specs.map spec
  | .single filter => [spec filter]

def clause : FilterItem → Clause
  | spec filter => .single filter
  | text sql => .text sql

def fields (p : Project) : FilterItem → Except Error (List FieldUse)
  | text sql => do .ok (← Filter.bindLiteral p sql).fields
  | spec filter => filter.fieldNames.mapM p.field

def spec? : FilterItem → Option FilterSpec
  | spec filter => some filter
  | text _ => none

def text? : FilterItem → Option String
  | spec _ => none
  | text sql => some sql

def specClause (items : List FilterItem) : Option Clause :=
  match items.filterMap spec? with
  | [] => none
  | specs => some (.list specs)

def textClause (items : List FilterItem) : Option Clause :=
  match items.filterMap text? with
  | [] => none
  | texts => some (.text (" AND ".intercalate (texts.map fun t => "(" ++ t ++ ")")))

end FilterItem

namespace MergeGroup

def tableName (views : String) : Option FieldUse → String
  | some date => Text.replace '.' "_" date.id ++ "__" ++ views
  | none => views

def place (views : String) (date : Option FieldUse) (metric : FieldUse) (groups : Dict MergeGroup) :
    Dict MergeGroup :=
  let table := tableName views date
  let group := (groups.get? table).getD { views, date, metrics := [] }
  groups.insert table { group with metrics := Session.addUse group.metrics metric }

end MergeGroup

namespace Scope

variable (s : Scope)

def mergeGroupOf (view : String) : String := (s.project.graph.mergeGroup? view).getD view

/-- The metrics that a metric is merged from: itself, or what a merged result refers to, followed for at most
`n` steps. -/
def mergedFrom : Nat → FieldUse → Except Error (List FieldUse)
  | 0, u => .error (Session.cycleError [] u.id)
  | n + 1, u =>
    if u.field.isMergedResult then do
      let references ← s.toSession.referencedFields u
      let found ← references.mapM (mergedFrom n)
      .ok found.flatten
    else .ok [u]

def addMetric (groups : Dict MergeGroup) (metric : FieldUse) : Except Error (Dict MergeGroup) := do
  let date ← s.project.canonDate metric
  .ok (MergeGroup.place (s.mergeGroupOf metric.view.name) date metric groups)

def mergeGroups (metrics : List FieldUse) : Except Error (Dict MergeGroup) :=
  metrics.foldlM
    (fun groups u => do (← s.mergedFrom s.toSession.fuel u).foldlM s.addMetric groups) []

def isIn (g : MergeGroup) (view : String) : Bool := s.project.graph.mergeGroup? view == some g.views

def firstIn (g : MergeGroup) (u : FieldUse) : List String → Except Error (Option FieldUse)
  | [] => .ok none
  | name :: rest => do
    let candidate ← s.project.field name
    if s.isIn g candidate.view.name then
      .ok (some (candidate.atGrain (if candidate.field.isGroup then u.grain else none)))
    else firstIn g u rest

def inGroup? (g : MergeGroup) (u : FieldUse) : Except Error (Option FieldUse) :=
  if s.isIn g u.view.name || u.view.name == g.views then .ok (some u)
  else
    match s.project.mappingOf? s.model u.id with
    | none => .ok none
    | some (_, mapping) => s.firstIn g u mapping.fields

/-- A dimension as a group has it. A date that some group is placed by means the date of each group. -/
def dimensionIn (dates : List String) (g : MergeGroup) (u : FieldUse) : Except Error FieldUse := do
  match g.date, dates.contains u.id && Grain.isTime u.grain with
  | some date, true => .ok (date.atGrain u.grain)
  | _, _ =>
    match ← s.inGroup? g u with
    | some v => .ok v
    | none => .error (.query (.noMapping u.id))

def mergeParts (groups : Dict MergeGroup) (dimensions : List FieldUse) : Except Error (List MergePart) :=
  let dates := groups.filterMap fun e => e.2.date.map FieldUse.id
  groups.mapM fun (table, g) => do
    .ok { g with table, dimensions := ← dimensions.mapM (s.dimensionIn dates g) }

mutual

def specIn (g : MergeGroup) : FilterSpec → Except Error (Option FilterSpec)
  | .group conditions connective => do
    .ok ((← specsIn g conditions).map fun conditions => .group conditions connective)
  | .condition field expression value => do
    let u ← s.project.field field
    .ok ((← s.inGroup? g u).map fun v => .condition v.qualifiedName expression value)

def specsIn (g : MergeGroup) : List FilterSpec → Except Error (Option (List FilterSpec))
  | [] => .ok (some [])
  | f :: rest => do
    match ← specIn g f with
    | none => .ok none
    | some first => .ok ((← specsIn g rest).map fun others => first :: others)

end

def allIn (g : MergeGroup) : List FieldUse → Except Error Bool
  | [] => .ok true
  | u :: rest => do
    match ← s.inGroup? g u with
    | some v => if v.same u then allIn g rest else .ok false
    | none => .ok false

/-- A filter as a group can apply it. Text cannot be changed, so its fields have to belong to the group. -/
def itemIn (g : MergeGroup) : FilterItem → Except Error (Option FilterItem)
  | .text sql => do
    let belongs ← s.allIn g (← (FilterItem.text sql).fields s.project)
    .ok (if belongs then some (.text sql) else none)
  | .spec filter => do .ok ((← s.specIn g filter).map .spec)

def partRequest (r : Request) (part : MergePart) (items : List FilterItem) : Request where
  metrics := part.metrics.map FieldUse.qualifiedName
  dimensions := (part.dimensions.map FieldUse.qualifiedName).eraseDups
  filter := FilterItem.specClause items
  having := FilterItem.textClause items
  forceGroupBy := r.forceGroupBy
  model := r.model

def partTable (nested : Nested) (r : Request) (items : List FilterItem) (part : MergePart) :
    Compile (String × Query) := do
  let applied ← items.mapM fun item => (s.itemIn part.toMergeGroup item : Compile _)
  let query ← s.singleQuery nested (partRequest r part (applied.filterMap id))
  return (part.table, query)

def checkApplied (parts : List MergePart) : List FilterItem → Except Error Unit
  | [] => .ok ()
  | item :: rest => do
    let applied ← parts.mapM fun part => s.itemIn part.toMergeGroup item
    if applied.any Option.isSome then checkApplied parts rest
    else
      let fields ← item.fields s.project
      .error (.query (.mergedFilter (fields.map FieldUse.qualifiedName)))

/-- Filters on aggregates apply to the merged result; the others are passed to the parts. -/
def splitItems (nested : Nested) : List FilterItem → Binding (List Filter × List FilterItem)
  | [] => pure ([], [])
  | item :: rest => do
    let fields ← (item.fields s.project : Compile _)
    if fields.any FieldUse.isMeasure then
      let filters ← s.bind nested item.clause
      let (outer, passed) ← splitItems nested rest
      return (filters ++ outer, passed)
    else
      let (outer, passed) ← splitItems nested rest
      return (outer, item :: passed)

end Scope

namespace MergePart

def metricColumn? (u : FieldUse) (parts : List MergePart) : Option String :=
  (parts.find? fun part => part.metrics.any fun m => m.same u).map fun part => part.table ++ "." ++ u.column

def dimensionColumns (part : MergePart) : List String :=
  part.dimensions.map fun u => part.table ++ "." ++ u.column

def coalesce (d : Dialect) : List String → String
  | [] => ""
  | [column] => column
  | column :: rest => d.ifNull ++ "(" ++ column ++ ", " ++ coalesce d rest ++ ")"

/-- Equality of two columns; some dialects compare times of different storage only as timestamps. -/
def equality (d : Dialect) (left : String) (u : FieldUse) (right : String) (v : FieldUse) : String :=
  if d = .bigQuery ∧ Grain.isTime u.grain ∧ Grain.isTime v.grain ∧ u.field.datatype ≠ v.field.datatype then
    s!"CAST({left} AS TIMESTAMP)=CAST({right} AS TIMESTAMP)"
  else left ++ "=" ++ right

def joinWith (d : Dialect) (first part : MergePart) : TableJoin :=
  if part.dimensions.isEmpty then
    if d.crossJoinsWithoutKeys then .cross part.table else .on "FULL OUTER JOIN" part.table "1=1"
  else
    .on "FULL OUTER JOIN" part.table (" and ".intercalate
      (List.zipWith
        (fun u v => equality d (first.table ++ "." ++ u.column) u (part.table ++ "." ++ v.column) v)
        first.dimensions part.dimensions))

end MergePart

def distinctNames (seen : List String) : List FieldUse → List FieldUse
  | [] => []
  | u :: rest =>
    if seen.contains u.column then distinctNames seen rest else u :: distinctNames (u.column :: seen) rest

namespace Scope

variable (s : Scope)

def mergedColumn (parts : List MergePart) (u : FieldUse) : Except Error String :=
  s.toSession.readFrom (fun u => MergePart.metricColumn? u parts) (fun u => .query (.mergedField u.id))
    s.toSession.fuel u

def mergedDimensions (parts : List MergePart) (dimensions : List FieldUse) : List SelectItem :=
  dimensions.zipIdx.map fun (u, i) =>
    .column (MergePart.coalesce s.context.dialect (parts.filterMap fun part => part.dimensionColumns[i]?)) u.column

/-- The columns of a merged result: metrics of the parts, dimensions, then metrics that combine parts. -/
def mergedItems (parts : List MergePart) (metrics dimensions : List FieldUse) : Except Error (List SelectItem) := do
  let own ← (distinctNames [] (metrics.filter fun u => !u.field.isMergedResult)).mapM fun u => do
    .ok (SelectItem.column (← s.mergedColumn parts u) u.column)
  let combined ← (metrics.filter fun u => u.field.isMergedResult).mapM fun u => do
    .ok (SelectItem.column (← s.toSession.formulaOver (s.mergedColumn parts) u) u.column)
  .ok (own ++ s.mergedDimensions parts dimensions ++ combined)

def mergedSortKey (names : List String) (o : SortField) : Except Error SortKey :=
  if names.contains o.u.column then .ok ⟨o.u.column,o.descending⟩
  else .error (.query (.mergedOrder o.u.qualifiedName))

def mergedSelect (parts : List MergePart) (metrics dimensions : List FieldUse) (outer : List Filter) :
    Compile Select := do
  match parts with
  | [] => .fail (.query .mergedWithoutMetric)
  | first :: others =>
    let items ← s.mergedItems parts metrics dimensions
    let conditions ← Filter.sqlOf s.context (fun u => s.mergedColumn parts u) outer
    return {
      items, conditions
      source := first.table
      joins := others.map (first.joinWith s.context.dialect) }

def mergedResult (nested : Nested) (r : Request) : Compile Query := do
  if r.funnel.isSome then .fail (.query .mergedFunnel)
  else
    let metrics ← s.fields r.metrics
    let dimensions ← s.fields r.dimensions
    let ((filters, passed), tables) ← (s.splitItems nested ((r.filter.map FilterItem.ofClause).getD [])).run []
    let (having, tables) ← (s.bindAll nested r.having.toList).run tables
    let outer := filters ++ having
    let groups ← s.mergeGroups (metrics ++ (Filter.fieldsOf outer).filter FieldUse.isMeasure)
    if groups.isEmpty then .fail (.query .mergedWithoutMetric)
    else
      let parts ← s.mergeParts groups dimensions
      let results ← parts.mapM (s.partTable nested r passed)
      s.checkApplied parts passed
      let select ← s.mergedSelect parts metrics dimensions outer
      let order ← s.order r
      let keys ← order.mapM fun o => (mergedSortKey select.names o : Compile _)
      return .mk (tables ++ results) (.select select) keys r.limit

end Scope

end SemanticSql
