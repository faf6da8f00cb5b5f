import SemanticSql.MergedResult
import SemanticSql.Scope.Mapping

/-! Queries that a request lists one by one. Each is compiled as it would be on its own, and every query after the
first is joined to the first on the fields that it names. -/
namespace SemanticSql

structure JoinField where
  field : String
  source : String
  deriving DecidableEq, Repr

structure MergedQuery where
  request : Request
  metrics : List FieldUse
  dimensions : List FieldUse
  joinKind : JoinKind
  joinFields : List JoinField
  deriving Repr

structure JoinedQuery extends MergedQuery where
  table : String
  keys : List (FieldUse × FieldUse)
  deriving Repr

namespace MergedQuery

def tableName (index : Nat) : String := "merged_query_" ++ toString index

def readJoinField : Value → Option JoinField :=
  Document.record .refused 2 fun s => do
    let field ← s.required 0 "field" Document.text
    let source ← s.required 1 "source_field" Document.text
    some { field := Text.lower (Text.trim field), source := Text.lower (Text.trim source) }

def readJoinFields (index : Nat) (item : Value) : Except Error (List JoinField) :=
  if index = 0 then .ok []
  else
    match item.get? "join_fields" with
    | none => .error (.query .mergedItemJoinFields)
    | some listed =>
      match Document.listOf .refused readJoinField listed with
      | some fields => .ok fields
      | none => .error (.query .mergedJoinFieldKeys)

def readJoinKind (item : Value) : Except Error JoinKind :=
  match item.get? "join_type" with
  | none => .ok .leftOuter
  | some value =>
    match Document.named .refused JoinKind.ofName? value with
    | some kind => .ok kind
    | none => .error (.query (.mergedJoinType value.compact))

def checkItem (item : Value) : Except Error Unit :=
  if !(item.isObject && (item.get? "metrics").isSome && (item.get? "dimensions").isSome) then
    .error (.query .mergedItemKeys)
  else if (item.get? "funnel").isSome then .error (.query .mergedItemFunnel)
  else .ok ()

def readRequest (outer : Request) (item : Value) : Except Error Request :=
  match Document.readRequest item with
  | none => .error (.parse .mergedItem)
  | some r => .ok { r with model := r.model <|> outer.model }

def read (s : Scope) (outer : Request) (item : Value) (index : Nat) : Except Error MergedQuery := do
  checkItem item
  let joinFields ← readJoinFields index item
  let joinKind ← readJoinKind item
  let r ← readRequest outer item
  let (request, _) ← s.resolveNames r
  let metrics ← s.fields request.metrics
  let dimensions ← s.fields request.dimensions
  .ok { request, metrics, dimensions, joinKind, joinFields }

def dimension? (s : Scope) (dimensions : List FieldUse) (name : String) : Option FieldUse :=
  dimensions.find? fun d =>
    d.column == name || d.qualifiedName == name ||
    (match s.project.field name with
      | .ok u => u.same d
      | .error _ => false) ||
    match s.project.mapping? s.model name with
    | some mapping => mapping.fields.any (Project.sameId d.id)
    | none => false

def joinDimension (s : Scope) (dimensions : List FieldUse) (name : String) (query : Nat) : Except Error FieldUse :=
  match dimension? s dimensions name with
  | some u => .ok u
  | none => .error (.join (.joinField name query) .graph)

def joined (s : Scope) (first : List FieldUse) (q : MergedQuery) (index : Nat) : Except Error JoinedQuery := do
  let keys ← q.joinFields.mapM fun j => do
    let field ← joinDimension s q.dimensions j.field (index + 1)
    let source ← joinDimension s first j.source 1
    .ok (field, source)
  .ok { q with table := tableName index, keys }

end MergedQuery

namespace JoinedQuery

variable (q : JoinedQuery)

def shown : List FieldUse :=
  (q.metrics ++ q.dimensions).filter fun u => !q.keys.any fun key => key.1.same u

def join (d : Dialect) (source : String) : TableJoin :=
  if q.joinKind = .cross ∨ q.keys.isEmpty then .cross q.table
  else
    .on q.joinKind.keyword q.table (" and ".intercalate (q.keys.map fun (field, first) =>
      MergePart.equality d (source ++ "." ++ first.column) first (q.table ++ "." ++ field.column) field))

def addColumns (columns : List (String × String)) : List (String × String) :=
  q.shown.foldl
    (fun columns u =>
      if columns.any fun c => c.1 == u.column then columns else columns ++ [(u.column, q.table ++ "." ++ u.column)])
    columns

def columns (queries : List JoinedQuery) : List (String × String) :=
  queries.foldl (fun columns q => q.addColumns columns) []

end JoinedQuery

namespace Scope

variable (s : Scope)

def listedQueries (r : Request) (items : List Value) : Except Error (List JoinedQuery) := do
  let queries ← items.zipIdx.mapM fun (item, index) => MergedQuery.read s r item index
  match queries with
  | [] => .error (.query .mergedQueriesEmpty)
  | first :: _ => queries.zipIdx.mapM fun (q, index) => q.joined s first.dimensions index

def listedColumn (columns : List (String × String)) (u : FieldUse) : Except Error String :=
  match Dict.get? columns u.column with
  | some column => .ok column
  | none => .error (.query (.mergedQueriesFilter u.id))

def mergedQueries (nested : Nested) (r : Request) (items : List Value) : Compile Query := do
  let queries ← s.listedQueries r items
  let results ← queries.mapM fun q => do return (q.table, ← nested q.request)
  let columns := JoinedQuery.columns queries
  let source := MergedQuery.tableName 0
  let (filters, tables) ← (s.bindAll nested (r.filter.toList ++ r.having.toList)).run []
  let conditions ← Filter.sqlOf s.context (fun u => listedColumn columns u) filters
  let order ← s.order r
  return .mk (results ++ tables)
    (.select {
      items := columns.map fun (name, sql) => .column sql name
      source, conditions
      joins := (queries.drop 1).map fun q => q.join s.context.dialect source })
    (order.map fun o => ⟨o.u.column,o.descending⟩) r.limit

end Scope

end SemanticSql
