import SemanticSql.Field
import SemanticSql.Join

/-!
Views: fields over a table or a query, and the identifiers by which views join.
-/
namespace SemanticSql

inductive IdentifierKind where
  | primary | foreign | join
  deriving DecidableEq, Repr

namespace IdentifierKind

def all : List IdentifierKind := [primary,foreign,join]

def name : IdentifierKind → String
  | primary => "primary"
  | foreign => "foreign"
  | join => "join"

def ofName? (s : String) : Option IdentifierKind := all.find? fun k => k.name == s

theorem ofName?_name (k : IdentifierKind) : ofName? k.name = some k := by cases k <;> decide

end IdentifierKind

/-- A key of a view. Views that share the name of a key join on it, part by part if it has parts. -/
inductive Identifier where
  | mk (name : String) (kind : IdentifierKind) (sql reference : Option String)
    (relationship : Option Relationship) (condition : Option String) (joinKind : Option JoinKind)
    (parts : List Identifier)
  deriving Repr

namespace Identifier

def name : Identifier → String
  | mk name .. => name

def kind : Identifier → IdentifierKind
  | mk _ kind .. => kind

def sql : Identifier → Option String
  | mk _ _ sql .. => sql

def reference : Identifier → Option String
  | mk _ _ _ reference .. => reference

def relationship : Identifier → Option Relationship
  | mk _ _ _ _ relationship .. => relationship

def condition : Identifier → Option String
  | mk _ _ _ _ _ condition .. => condition

def joinKind : Identifier → Option JoinKind
  | mk _ _ _ _ _ _ joinKind _ => joinKind

def parts : Identifier → List Identifier
  | mk _ _ _ _ _ _ _ parts => parts

def isComposite (i : Identifier) : Bool := !i.parts.isEmpty

def ofSql (name : String) (kind : IdentifierKind) (sql : String) : Identifier :=
  mk name kind (some sql) none none none none []

def ofJoin (name reference : String) (relationship : Relationship) (condition : String) : Identifier :=
  mk name .join none (some reference) (some relationship) (some condition) none []

def withJoinKind (joinKind : JoinKind) : Identifier → Identifier
  | mk name kind sql reference relationship condition _ parts =>
    mk name kind sql reference relationship condition (some joinKind) parts

end Identifier

structure AccessFilter where
  field : String
  userAttribute : String
  deriving DecidableEq, Repr

structure View where
  name : String
  modelName : Option String := none
  tableName : Option String := none
  derivedSql : Option String := none
  defaultDate : Option String := none
  fields : List Field := []
  identifiers : List Identifier := []
  accessFilters : List AccessFilter := []
  alwaysFilters : List FieldFilter := []
  requiredGrants : List String := []
  allowedFanouts : List String := []
  deriving Repr

namespace View

def primaryKey? (v : View) : Option Field := v.fields.find? fun f => f.primaryKey

def field? (v : View) (name : String) : Option (Field × Option Grain) :=
  v.fields.findSome? fun f => (f.grainOf? name).map fun grain => (f, grain)

def fieldsWithTag (v : View) (tag : String) : List Field := v.fields.filter fun f => f.tags.contains tag

def hasCompositeKey (v : View) : Bool := v.identifiers.any Identifier.isComposite

end View

end SemanticSql
