import SemanticSql.Document.Codec
import SemanticSql.Request

/-!
Requests in documents. Null is refused in them for lists, mappings and truth values.
-/
namespace SemanticSql.Document

def readSpecTo : Nat → Value → Option FilterSpec
  | 0, _ => none
  | depth + 1, v =>
    match v with
    | .object entries =>
      let s := Source.members entries
      let group? : Option FilterSpec := do
        let conditions ← s.required 0 "conditions" (listOf .refused (readSpecTo depth))
        let connective ← s.withDefault 1 "logical_operator" .and (named .refused Connective.ofName?)
        some (.group conditions connective)
      let condition? : Option FilterSpec := do
        let field ← s.required 0 "field" text
        let expression ← s.required 1 "expression" text
        let value ← s.optional 2 "value" some
        some (.condition field expression value)
      group? <|> condition?
    | _ => none

def readSpec (v : Value) : Option FilterSpec := readSpecTo (v.depth + 1) v

def readClause : Value → Option Clause
  | .str s => some (.text s)
  | .list items => (readAll readSpec items).map .list
  | v => (readSpec v).map .single

mutual

def writeSpec : FilterSpec → Value
  | .group conditions connective =>
    object [("conditions", .list (writeSpecs conditions)),("logical_operator", .str connective.name)]
  | .condition field expression value =>
    object [("field", .str field),("expression", .str expression),("value", value.getD .null)]

def writeSpecs : List FilterSpec → List Value
  | [] => []
  | f :: rest => writeSpec f :: writeSpecs rest

end

def writeClause : Clause → Value
  | .text s => .str s
  | .list specs => .list (writeSpecs specs)
  | .single spec => writeSpec spec

def sortDirection? (s : String) : Option Bool :=
  if s = "asc" ∨ s = "ASC" then some false
  else if s = "desc" ∨ s = "DESC" then some true
  else none

def readOrderEntry : Value → Option OrderEntry :=
  record .refused 2 fun s => do
    let field ← s.required 0 "field" text
    let descending ← s.withDefault 1 "sort" false (named .refused sortDirection?)
    some { field, descending }

def readOrderBy : Value → Option OrderBy
  | .str s => some (.text s)
  | .list items => (readAll readOrderEntry items).map .list
  | _ => none

def writeOrderEntry (e : OrderEntry) : Value :=
  object [("field", .str e.field),("sort", .str (if e.descending then "desc" else "asc"))]

def writeOrderBy : OrderBy → Value
  | .text s => .str s
  | .list entries => writeList writeOrderEntry entries

def integer : Value → Option Int
  | .int i => if i < Int.ofNat (twoTo 63) then some i else none
  | _ => none

def natural : Value → Option Nat
  | .int i => if 0 ≤ i then some i.toNat else none
  | _ => none

def readWindow : Value → Option FunnelWindow :=
  record .refused 2 fun s => do
    let value ← s.required 0 "value" integer
    let unit ← s.required 1 "unit" text
    some { value, unit }

def readFunnel : Value → Option Funnel :=
  record .refused 2 fun s => do
    let steps ← s.withDefault 0 "steps" [] (listOf .refused readClause)
    let within ← s.open? 1 "within" readWindow
    some { steps, within }

def writeWindow (w : FunnelWindow) : Value := object [("value", .int w.value),("unit", .str w.unit)]

def writeFunnel (f : Funnel) : Value :=
  object [("steps", writeList writeClause f.steps),("within", Value.orNull writeWindow f.within)]

/-- The model goes by two names, of which a request may use one. -/
def readModelName (s : Source) : Option (Option String) :=
  match s.slot? 13 "model", s with
  | none, .members entries => (Source.members entries).open? 13 "model_name" text
  | some _, .members entries => if entries.contains "model_name" then none else s.open? 13 "model" text
  | _, _ => s.open? 13 "model" text

def readRequest : Value → Option Request :=
  record .refused 15 fun s => do
    let metrics ← s.withDefault 0 "metrics" [] (listOf .refused text)
    let dimensions ← s.withDefault 1 "dimensions" [] (listOf .refused text)
    let filter ← s.open? 2 "where" readClause
    let having ← s.open? 3 "having" readClause
    let orderBy ← s.open? 4 "order_by" readOrderBy
    let funnel ← s.open? 5 "funnel" readFunnel
    let mergedQueries ← s.open? 6 "merged_queries" (listOf .refused some)
    let limit ← s.open? 7 "limit" natural
    let dialect ← s.open? 8 "query_type" (named .refused Dialect.ofName?)
    let mergedResult ← s.withDefault 9 "merged_result" false truth
    let singleQuery ← s.withDefault 10 "single_query" false truth
    let forceGroupBy ← s.withDefault 11 "force_group_by" false truth
    let topic ← s.open? 12 "topic" text
    let model ← readModelName s
    let userAttributes ← s.withDefault 14 "user_attributes" [] (dictOf .refused text)
    some {
      metrics, dimensions, filter, having, orderBy, funnel, mergedQueries, limit, dialect, mergedResult,
      singleQuery, forceGroupBy, topic, model, userAttributes }

def writeRequest (r : Request) : Value :=
  object [
    ("metrics", Value.strings r.metrics),
    ("dimensions", Value.strings r.dimensions),
    ("where", Value.orNull writeClause r.filter),
    ("having", Value.orNull writeClause r.having),
    ("order_by", Value.orNull writeOrderBy r.orderBy),
    ("funnel", Value.orNull writeFunnel r.funnel),
    ("merged_queries", Value.orNull Value.list r.mergedQueries),
    ("limit", Value.orNull (fun n => .int (Int.ofNat n)) r.limit),
    ("query_type", writeText (r.dialect.map Dialect.name)),
    ("merged_result", .bool r.mergedResult),
    ("single_query", .bool r.singleQuery),
    ("force_group_by", .bool r.forceGroupBy),
    ("topic", writeText r.topic),
    ("model", writeText r.model),
    ("user_attributes", writeDict .str r.userAttributes)]

end SemanticSql.Document
