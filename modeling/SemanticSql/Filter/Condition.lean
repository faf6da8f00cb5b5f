import SemanticSql.Context
import SemanticSql.Filter.Rendering
import SemanticSql.Project

/-!
Conditions on a field of a project: how its values are stored decides how they are compared.
-/
namespace SemanticSql

namespace FieldUse

def timeStorage (u : FieldUse) : Option Datatype :=
  match u.field.role, u.field.type with
  | .group, .time => some u.field.datatype
  | _, .date => some .date
  | _, .timestamp => some u.field.datatype
  | _, _ => none

def isYesNo (u : FieldUse) : Bool := u.field.type == .yesNo

end FieldUse

namespace Context

variable (c : Context)

def literalSql (u : FieldUse) (sql literal : String) : Except Error String :=
  Literal.sql c.dialect c.clock u.timeStorage u.isYesNo sql literal

def conditionSql (u : FieldUse) (predicate : Predicate) (value : Option Value) (sql : String) :
    Except Error String :=
  if predicate = .literal then
    match value with
    | some (.str literal) => c.literalSql u sql literal
    | none | some .null => .error (.parse (.missingValue u.id predicate.name))
    | some v => c.literalSql u sql v.compact
  else predicate.sql c.dialect u.timeStorage sql value

end Context

end SemanticSql
