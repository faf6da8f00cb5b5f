import SemanticSql.Filter.Condition
import SemanticSql.Request

/-!
Filters whose names are bound to the fields of a project.
-/
namespace SemanticSql

/-- A piece of a filter that is given as SQL text. A field keeps the text that named it. -/
inductive LiteralPart where
  | text (s : String)
  | field (token : String) (u : FieldUse)
  deriving Repr

namespace LiteralPart

def field? : LiteralPart → Option FieldUse
  | text _ => none
  | field _ u => some u

def source : LiteralPart → String
  | text s => s
  | field token _ => token

end LiteralPart

inductive Filter where
  | condition (u : FieldUse) (predicate : Predicate) (value : Option Value)
  | group (conditions : List Filter) (connective : Connective)
  | literal (parts : List LiteralPart)
  | inQuery (u : FieldUse) (negated : Bool) (table column : String)
  deriving Repr

namespace Filter

mutual

def fields : Filter → List FieldUse
  | condition u _ _ => [u]
  | group conditions _ => fieldsOf conditions
  | literal parts => parts.filterMap LiteralPart.field?
  | inQuery u _ _ _ => [u]

def fieldsOf : List Filter → List FieldUse
  | [] => []
  | f :: rest => fields f ++ fieldsOf rest

end

def isMeasureFilter (f : Filter) : Bool := f.fields.any FieldUse.isMeasure

def isGroup : Filter → Bool
  | group _ _ => true
  | _ => false

def literalSql (column : FieldUse → Compile String) (parts : List LiteralPart) : Compile String := do
  let texts ← parts.mapM fun
    | .text s => pure s
    | .field _ u => column u
  return String.join texts

mutual

def sql (c : Context) (column : FieldUse → Compile String) : Filter → Compile String
  | condition u predicate value => do
    let sql ← column u
    c.conditionSql u predicate value sql
  | group conditions connective => do
    let parts ← sqlOf c column conditions
    return "(" ++ (" " ++ connective.name ++ " ").intercalate parts ++ ")"
  | literal parts => literalSql column parts
  | inQuery u negated table name => do
    let sql ← column u
    return sql ++ (if negated then " NOT IN " else " IN ") ++ "(SELECT DISTINCT " ++ name ++ " FROM " ++ table ++ ")"

def sqlOf (c : Context) (column : FieldUse → Compile String) : List Filter → Compile (List String)
  | [] => pure []
  | f :: rest => do
    let first ← sql c column f
    let others ← sqlOf c column rest
    return first :: others

end

end Filter

end SemanticSql
