import SemanticSql.Filter.Bound
import SemanticSql.Sql.Query

/-! Binding the names in filters to the fields of a project. -/
namespace SemanticSql

abbrev Tables := List (String × Query)

abbrev Binding := StateT Tables Compile

abbrev Subquery := Value → Binding (String × String)

namespace Filter

inductive Run where
  | plain (cs : List Char)
  | quoted (cs : List Char)
  deriving DecidableEq, Repr

def runsFrom (inside : Bool) (acc : List Char) : List Char → List Run
  | [] => if acc.isEmpty then [] else [if inside then .quoted acc.reverse else .plain acc.reverse]
  | c :: rest =>
    if c = '\'' then
      if inside then .quoted (c :: acc).reverse :: runsFrom false [] rest
      else (if acc.isEmpty then [] else [Run.plain acc.reverse]) ++ runsFrom true [c] rest
    else runsFrom inside (c :: acc) rest

def runs (cs : List Char) : List Run := runsFrom false [] cs

def isNameStart (c : Char) : Bool := c.isAlpha || c = '_'

def isNameChar (c : Char) : Bool := c.isAlphanum || c = '_'

def nameLength? : List Char → Option Nat
  | c :: rest => if isNameStart c then some ((rest.takeWhile isNameChar).length + 1) else none
  | [] => none

def qualifiedLength? (cs : List Char) : Option Nat := do
  let n ← nameLength? cs
  match cs.drop n with
  | '.' :: rest => some ((nameLength? rest).elim n fun m => n + 1 + m)
  | _ => some n

def tokenLength? (cs : List Char) : Option Nat := Reference.length? cs <|> qualifiedLength? cs

def keywords : List String :=
  ["and","or","not","null","is","in","like","ilike","between","true","false","select"]

def bindToken (p : Project) (token : List Char) : Except Error LiteralPart :=
  let text := String.ofList token
  if (Reference.length? token).isSome then (p.field (Reference.body token)).map (.field text)
  else if keywords.contains (Text.lower text) then .ok (.text text)
  else
    match p.field text with
    | .ok u => .ok (.field text u)
    | .error e => if e.isAccess then .ok (.text text) else .error e

def bindRun (p : Project) : Run → Except Error (List LiteralPart)
  | .quoted cs => .ok [.text (String.ofList cs)]
  | .plain cs => (Text.chunks tokenLength? cs).mapM fun
    | .plain cs => .ok (.text (String.ofList cs))
    | .token cs => bindToken p cs

def bindLiteral (p : Project) (text : String) : Except Error Filter := do
  let parts ← (runs text.toList).mapM (bindRun p)
  .ok (.literal parts.flatten)

/-- A group compares fields of rows or aggregates of groups, not both. -/
def bindGroup (conditions : List Filter) (connective : Connective) : Except Error Filter :=
  let measures := (conditions.filter isMeasureFilter).length
  if 0 < measures ∧ measures < conditions.length then .error (.query .mixedGroup)
  else .ok (.group conditions connective)

def bindCondition (p : Project) (subquery : Subquery) (field expression : String) (value : Option Value) :
    Binding Filter := do
  let predicate ← (Predicate.ofText expression : Compile _)
  let u ← (p.field field : Compile _)
  if predicate.needsValue && (value.getD .null).isNull then
    Compile.fail (.parse (.missingValue field predicate.name))
  else
    match predicate with
    | .inQuery negated =>
      let (table, column) ← subquery (value.getD .null)
      return .inQuery u negated table column
    | _ => return .condition u predicate value

mutual

def bindSpec (p : Project) (subquery : Subquery) : FilterSpec → Binding Filter
  | .group conditions connective => do
    let conditions ← bindSpecs p subquery conditions
    (bindGroup conditions connective : Compile _)
  | .condition field expression value => bindCondition p subquery field expression value

def bindSpecs (p : Project) (subquery : Subquery) : List FilterSpec → Binding (List Filter)
  | [] => pure []
  | f :: rest => do
    let first ← bindSpec p subquery f
    let others ← bindSpecs p subquery rest
    return first :: others

end

def bindClause (p : Project) (subquery : Subquery) : Clause → Binding (List Filter)
  | .text s =>
    if (Text.trim s).isEmpty then pure []
    else do
      let filter ← (bindLiteral p s : Compile _)
      return [filter]
  | .list specs => bindSpecs p subquery specs
  | .single spec => do return [← bindSpec p subquery spec]

def ofAlways (p : Project) (owner : View) (f : FieldFilter) : Except Error Filter := do
  .ok (.condition (← p.fieldFrom owner f.field) .literal (some (.str f.value)))

def attributeValues (text : String) : List String := (Text.split ',' text).map Text.trim

def ofAttribute (u : FieldUse) (text : String) : Filter :=
  match attributeValues text with
  | [_] | [] => .condition u (.compare .equal) (some (.str (Text.trim text)))
  | values => .condition u (.oneOf false) (some (Value.strings values))

def ofAccess (p : Project) (attributes : Dict String) (owner : View) (filters : List AccessFilter) :
    Except Error (List Filter) :=
  (filters.filterMap fun f => (attributes.get? f.userAttribute).map fun a => (f.field, a)).mapM
    fun (field, text) => do .ok (ofAttribute (← p.fieldFrom owner field) text)

end Filter

end SemanticSql
