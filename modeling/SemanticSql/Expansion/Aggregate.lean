import SemanticSql.Expansion.Row
import SemanticSql.Sql.Symmetric

/-! The SQL of fields in a query that groups its rows. -/
namespace SemanticSql.Session

variable (s : Session)

def symmetricKey (row : Expand) (u : FieldUse) : Compile (Option String) := do
  if s.context.dialect.hasSymmetricAggregates then
    match u.view.primaryKey? with
    | some key => return some (← row { view := u.view, field := key, grain := none })
    | none => .fail (.query (.primaryKeyMissing u.view.name))
  else
    let cause := QueryError.symmetricInflated s.context.dialect u.id
    if s.context.strictAggregates then .fail (.query cause)
    else
      Compile.warn cause.message
      return none

inductive Additive where
  | sum | count | average
  deriving DecidableEq, Repr

namespace Additive

def plain (a : Additive) (sql : String) : String :=
  match a with
  | sum => "SUM(" ++ sql ++ ")"
  | count => "COUNT(" ++ sql ++ ")"
  | average => "AVG(" ++ sql ++ ")"

def symmetric : Additive → Symmetric.GroupTerm
  | sum => Symmetric.sum
  | count => Symmetric.count
  | average => Symmetric.average

end Additive

def additiveSql (symmetric : NameSet) (row : Expand) (a : Additive) (u : FieldUse) : Compile String := do
  let sql ← row u
  if symmetric.contains u.view.name then
    match ← s.symmetricKey row u with
    | some key => Symmetric.render s.context.dialect a.symmetric sql key
    | none => return a.plain sql
  else return a.plain sql

def distinctSql (row : Expand) (term : Symmetric.GroupTerm) (u : FieldUse) : Compile String := do
  match u.field.distinctKey with
  | none => .fail (.query (.distinctKeyMissing u.id u.field.type.name))
  | some key =>
    let key ← s.expandWith row u.view u.id key
    let sql ← row u
    Symmetric.render s.context.dialect term sql key

def columnAggregate (symmetric : NameSet) (row : Expand) (u : FieldUse) : Compile String := do
  match u.field.type with
  | .sum => s.additiveSql symmetric row .sum u
  | .count => s.additiveSql symmetric row .count u
  | .average => s.additiveSql symmetric row .average u
  | .sumDistinct => s.distinctSql row Symmetric.sum u
  | .averageDistinct => s.distinctSql row Symmetric.average u
  | .countDistinct => return "COUNT(DISTINCT(" ++ (← row u) ++ "))"
  | .max => return "MAX(" ++ (← row u) ++ ")"
  | .min => return "MIN(" ++ (← row u) ++ ")"
  | .median =>
    if s.context.dialect.hasMedian then return "MEDIAN(" ++ (← row u) ++ ")"
    else .fail (.query (.medianUnsupported s.context.dialect u.id))
  | .cumulative => .fail (.query (.cumulativeAggregate u.id))
  | type => .fail (.query (.notAggregate u.id type.name))

def aggregateSqlFrom (symmetric : NameSet) : Nat → List String → Expand
  | 0, stack, u => .fail (cycleError stack u.id)
  | n + 1, stack, u =>
    if u.field.type = .number then
      match u.field.sql with
      | none => .fail (.query (.noSql u.id))
      | some sql =>
        if stack.contains u.id then .fail (cycleError stack u.id)
        else
          let inner := u.id :: stack
          let sub : Expand := fun r =>
            if r.isMeasure then do
              let sql ← aggregateSqlFrom symmetric n inner r
              return if r.field.isFormula then "(" ++ sql ++ ")" else sql
            else s.rowSqlIn inner r
          s.expandWith sub u.view u.id sql
    else s.columnAggregate symmetric (s.rowSqlIn stack) u

/-- The SQL of a field as a grouped query shows it. `symmetric` holds the views whose rows may be repeated. -/
def groupedSql (symmetric : NameSet) (u : FieldUse) : Compile String :=
  if u.isMeasure then s.aggregateSqlFrom symmetric s.fuel [] u else s.rowSql u

def aggregateColumn (u : FieldUse) (column : String) : Except Error String :=
  match u.field.type with
  | .sum | .sumDistinct => .ok s!"SUM({column})"
  | .count => .ok s!"COUNT({column})"
  | .countDistinct => .ok s!"COUNT(DISTINCT({column}))"
  | .average | .averageDistinct => .ok s!"AVG({column})"
  | .max => .ok s!"MAX({column})"
  | .min => .ok s!"MIN({column})"
  | type =>
    if type = .median ∧ s.context.dialect.hasMedian then .ok s!"MEDIAN({column})"
    else .error (.query (.derivedColumn u.id type.name s.context.dialect))

def formulaOver (column : FieldUse → Except Error String) (u : FieldUse) : Except Error String :=
  match u.field.sql with
  | none => .error (.query (.noSql u.id))
  | some sql => do
    let parts ← (Reference.parts (← s.render sql)).mapM fun
      | .text t => Except.ok t
      | .name token => do column (← s.reference u.view u.id token)
    .ok (String.join parts)

/-- The SQL of a field over tables that hold some fields already. -/
def readFrom (held : FieldUse → Option String) (missing : FieldUse → Error) : Nat → FieldUse → Except Error String
  | 0, u => .error (cycleError [] u.id)
  | n + 1, u =>
    match held u with
    | some column => .ok column
    | none =>
      if u.field.isFormula then do
        let sql ← s.formulaOver (readFrom held missing n) u
        .ok ("(" ++ sql ++ ")")
      else .error (missing u)

end SemanticSql.Session
