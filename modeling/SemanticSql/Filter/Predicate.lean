import SemanticSql.Error

/-!
The predicates that a filter can apply to a field, under the names by which requests call them.
-/
namespace SemanticSql

inductive Comparison where
  | less | lessOrEqual | equal | notEqual | greaterOrEqual | greater
  deriving DecidableEq, Repr

def Comparison.all : List Comparison := [less,lessOrEqual,equal,notEqual,greaterOrEqual,greater]

def Comparison.name : Comparison → String
  | less => "less_than"
  | lessOrEqual => "less_or_equal_than"
  | equal => "equal_to"
  | notEqual => "not_equal_to"
  | greaterOrEqual => "greater_or_equal_than"
  | greater => "greater_than"

def Comparison.sign : Comparison → String
  | less => "<"
  | lessOrEqual => "<="
  | equal => "="
  | notEqual => "<>"
  | greaterOrEqual => ">="
  | greater => ">"

inductive Place where
  | anywhere | start | finish
  deriving DecidableEq, Repr

def Place.name (place : Place) (negated : Bool) : String :=
  match place, negated with
  | anywhere, false => "contains"
  | anywhere, true => "does_not_contain"
  | start, false => "starts_with"
  | start, true => "does_not_start_with"
  | finish, false => "ends_with"
  | finish, true => "does_not_end_with"

def Place.pattern (place : Place) (text : String) : String :=
  match place with
  | anywhere => "%" ++ text ++ "%"
  | start => text ++ "%"
  | finish => "%" ++ text

inductive Predicate where
  | compare (op : Comparison)
  | like
  | occurs (place : Place) (anyCase negated : Bool)
  | isNull (negated : Bool)
  | oneOf (negated : Bool)
  | isTrue (negated : Bool)
  | literal
  | inQuery (negated : Bool)
  deriving DecidableEq, Repr

namespace Predicate

def all : List Predicate :=
  Comparison.all.map compare ++ [like] ++
  [occurs .anywhere false false,occurs .anywhere false true,occurs .anywhere true false,
    occurs .anywhere true true,occurs .start false false,occurs .finish false false,
    occurs .start false true,occurs .finish false true,occurs .start true false,
    occurs .finish true false,occurs .start true true,occurs .finish true true] ++
  [isNull false,isNull true,oneOf false,oneOf true,isTrue false,isTrue true,literal,inQuery false,
    inQuery true]

def name : Predicate → String
  | compare op => op.name
  | like => "like"
  | occurs place anyCase negated =>
    place.name negated ++ if anyCase then "_case_insensitive" else ""
  | isNull false => "is_null"
  | isNull true => "is_not_null"
  | oneOf false => "isin"
  | oneOf true => "isnotin"
  | isTrue false => "boolean_true"
  | isTrue true => "boolean_false"
  | literal => "matches"
  | inQuery false => "is_in_query"
  | inQuery true => "is_not_in_query"

def ofText (s : String) : Except Error Predicate :=
  let wanted := Text.lower (Text.trim s)
  match all.find? fun p => p.name == wanted with
  | some p => .ok p
  | none => .error (.parse (.unknownExpression s))

def needsValue : Predicate → Bool
  | isNull _ | isTrue _ => false
  | _ => true

end Predicate

end SemanticSql
