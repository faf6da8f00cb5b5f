import SemanticSql.Filter.Literal
import SemanticSql.Sql.Constant

/-!
Conditions in SQL: a predicate applied to the SQL of a field.
-/
namespace SemanticSql

namespace Predicate

def required (p : Predicate) (value : Option Value) : Except Error Value :=
  match value with
  | none | some .null => .error (.parse (.valueRequired p.name))
  | some v => .ok v

def patternText : Value → String
  | .str s => s
  | v => v.compact

def listConstant (d : Dialect) (datatype : Option Datatype) (v : Value) : Except Error String := do
  let constant ← Sql.constant d datatype v
  match v with
  | .list _ => .ok constant
  | _ => .ok ("(" ++ constant ++ ")")

def sql (p : Predicate) (d : Dialect) (datatype : Option Datatype) (field : String) (value : Option Value) :
    Except Error String := do
  match p with
  | compare op => do
    let constant ← Sql.constant d datatype (← p.required value)
    .ok (field ++ op.sign ++ constant)
  | like => do
    let constant ← Sql.constant d datatype (← p.required value)
    .ok (field ++ " LIKE " ++ constant)
  | occurs place anyCase negated => do
    let v ← p.required value
    let pattern := Sql.quote (place.pattern (patternText v))
    let verb := if negated then " NOT LIKE " else " LIKE "
    if anyCase then .ok ("LOWER(" ++ field ++ ")" ++ verb ++ "LOWER(" ++ pattern ++ ")")
    else .ok (field ++ verb ++ pattern)
  | isNull false => .ok (field ++ " IS NULL")
  | isNull true => .ok (field ++ " IS NOT NULL")
  | oneOf negated => do
    let list ← listConstant d datatype (← p.required value)
    .ok (field ++ (if negated then " NOT IN " else " IN ") ++ list)
  | isTrue false => .ok field
  | isTrue true => .ok ("NOT " ++ field)
  | literal | inQuery _ => .error (.query (.unboundExpression p.name))

end Predicate

def Literal.sql (d : Dialect) (clock : Clock) (datatype : Option Datatype) (yesNo : Bool)
    (field literal : String) : Except Error String := do
  let conditions ← Literal.conditions clock yesNo literal
  let rendered ← conditions.mapM fun c => c.predicate.sql d datatype field (some c.value)
  .ok (" AND ".intercalate rendered)

end SemanticSql
