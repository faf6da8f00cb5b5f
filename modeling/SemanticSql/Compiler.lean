import SemanticSql.MergedQueries

/-!
Compiling requests: choosing the model, the dialect and the calendar, then answering by one query where that is
possible and by a merged result where views cannot be joined.
-/
namespace SemanticSql

structure Compiled where
  query : Query
  dialect : Dialect
  connection : Option String
  warnings : List String
  deriving Repr

def Compiled.sql (c : Compiled) : String := c.query.statement c.dialect

mutual

def FilterSpec.depth : FilterSpec → Nat
  | .group conditions _ => depthOf conditions
  | .condition _ _ value => (value.map Value.depth).getD 0

def depthOf : List FilterSpec → Nat
  | [] => 0
  | f :: rest => max f.depth (depthOf rest)

end

def Clause.depth : Clause → Nat
  | .text _ => 0
  | .list specs => depthOf specs
  | .single spec => spec.depth

/-- A bound on how deep requests are contained in each other: a request inside of a value is less deep than
the value. -/
def Request.depth (r : Request) : Nat :=
  let clauses := r.filter.toList ++ r.having.toList ++ ((r.funnel.map Funnel.steps).getD [])
  let values := r.mergedQueries.getD []
  ((clauses.map Clause.depth) ++ (values.map Value.depth)).foldl max 0

namespace Scope

variable (s : Scope)

def asksMerged (r : Request) : Bool := (s.found r.metrics).any fun u => u.field.isMergedResult

def compileWith (nested : Nested) (r : Request) : Compile Query := do
  let (r, merges) ← s.resolveNames r
  if r.mergedResult || merges || s.asksMerged r then s.mergedResult nested r
  else
    match ← (s.singleQuery nested r).attempt with
    | .ok query => return query
    | .error e => if e.isRecoverable && !r.singleQuery then s.mergedResult nested r else .fail e

def compile : Nat → Nested
  | 0, _ => .fail (.parse .subquery)
  | n + 1, r => s.compileWith (compile n) r

def answer (r : Request) : Compile Query := do
  s.checkScope
  let compile := s.compile (r.depth + 1)
  match r.mergedQueries with
  | some items => s.mergedQueries compile r items
  | none => compile r

end Scope

namespace Project

variable (p : Project)

def modelNamesFrom (r : Request) : List String :=
  let listed (item : Value) (key : String) : List String :=
    (((item.get? key).bind Value.list?).getD []).filterMap Value.str?
  r.metrics ++ r.dimensions ++
    (r.mergedQueries.getD []).flatMap fun item => listed item "metrics" ++ listed item "dimensions"

/-- The model of a request: the one that it or its topic names, or the only one that its fields belong to. -/
def chooseModel (r : Request) (topic : Option Topic) : Except Error (Option Model) :=
  match r.model <|> topic.bind Topic.modelName, p.models with
  | some name, _ =>
    match p.model? name with
    | some model => .ok (some model)
    | none => .error (.notFound .model name)
  | none, [] => .ok none
  | none, [model] => .ok (some model)
  | none, _ =>
    let fields := (modelNamesFrom r).filterMap fun name => (p.field name).toOption
    match NameSet.ofList (fields.filterMap fun u => u.view.modelName) with
    | [] => .error (.query .noModel)
    | [name] => .ok (p.model? name)
    | names => .error (.query (.manyModels names))

def chooseDialect (r : Request) (model : Option Model) : Except Error Dialect :=
  let connection := model.bind Model.connection
  match r.dialect <|> connection.bind p.connectionDialect? <|> p.settings.defaultDialect with
  | some dialect => .ok dialect
  | none => .error (.query .noDialect)

/-- The current time of a project: a fixed one, or the given one if the timezone is known. -/
def currentTime (timezone : Option String) (now : DateTime) : Except Error DateTime :=
  match p.settings.now with
  | some fixed => .ok fixed
  | none => do
    checkTimezone timezone
    .ok now

def attributesFor (r : Request) : Dict String := Dict.ofList (p.userAttributes ++ r.userAttributes)

def contextFor (r : Request) (model : Option Model) (dialect : Dialect) (now : DateTime) : Except Error Context := do
  let timezone := model.bind Model.timezone <|> p.settings.timezone
  let now ← p.currentTime timezone now
  .ok {
    dialect, timezone, now
    convertsTimezone := (model.map Model.convertsTimezone).getD true
    weekStart := (model.bind Model.weekStart <|> p.settings.weekStart).getD .monday
    userAttributes := p.attributesFor r
    strictAggregates := p.settings.strictAggregates }

def scopeFor (r : Request) (now : DateTime) : Except Error Scope := do
  let topic ← r.topic.mapM p.topic
  let model ← p.chooseModel r topic
  let dialect ← p.chooseDialect r model
  let context ← p.contextFor r model dialect now
  .ok { project := p, context, model, topic }

def compile (r : Request) (now : DateTime) : Except Error Compiled := do
  let s ← p.scopeFor r now
  let (result, progress) := (s.answer r).run {}
  let query ← result
  .ok {
    query
    dialect := s.context.dialect
    connection := s.model.bind Model.connection
    warnings := progress.warnings }

end Project

end SemanticSql
