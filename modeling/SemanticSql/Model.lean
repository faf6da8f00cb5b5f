import SemanticSql.Calendar
import SemanticSql.Dict

/-!
Models: the connection, calendar settings, mappings and access grants of a set of views.
-/
namespace SemanticSql

structure Mapping where
  fields : List String
  groupLabel : Option String := none
  description : Option String := none
  deriving DecidableEq, Repr

structure AccessGrant where
  name : String
  userAttribute : String
  allowed : List String
  deriving DecidableEq, Repr

structure Model where
  name : String
  connection : Option String := none
  weekStart : Option Weekday := none
  timezone : Option String := none
  convertsTimezone : Bool := true
  mappings : Dict Mapping := []
  grants : List AccessGrant := []
  requiredGrants : List String := []
  deriving DecidableEq, Repr

def Model.grant? (m : Model) (name : String) : Option AccessGrant := m.grants.find? fun g => g.name == name

end SemanticSql
