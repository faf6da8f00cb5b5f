import SemanticSql.Document.Codec
import SemanticSql.Model

/-!
Models in documents.
-/
namespace SemanticSql.Document

def readMapping (nulls : Nulls) : Value → Option Mapping :=
  record nulls 3 fun s => do
    let fields ← s.required 0 "fields" (listOf nulls text)
    let groupLabel ← s.optional 1 "group_label" text
    let description ← s.optional 2 "description" text
    some { fields, groupLabel, description }

def writeMapping (m : Mapping) : Value :=
  object [
    ("fields", Value.strings m.fields),
    ("group_label", writeText m.groupLabel),
    ("description", writeText m.description)]

def readGrant (nulls : Nulls) : Value → Option AccessGrant :=
  record nulls 3 fun s => do
    let name ← s.required 0 "name" text
    let userAttribute ← s.required 1 "user_attribute" text
    let allowed ← s.required 2 "allowed_values" (listOf nulls text)
    some { name, userAttribute, allowed }

def writeGrant (g : AccessGrant) : Value :=
  object [
    ("name", .str g.name),
    ("user_attribute", .str g.userAttribute),
    ("allowed_values", Value.strings g.allowed)]

def readModel (nulls : Nulls) : Value → Option Model :=
  record nulls 8 fun s => do
    let name ← s.required 0 "name" text
    let connection ← s.optional 1 "connection" text
    let weekStart ← s.optional 2 "week_start_day" (named nulls Weekday.ofName?)
    let timezone ← s.optional 3 "timezone" text
    let convertsTimezone ← s.withDefault 4 "default_convert_timezone" true truth
    let mappings ← s.withDefault 5 "mappings" [] (dictOf nulls (readMapping nulls))
    let grants ← s.withDefault 6 "access_grants" [] (listOf nulls (readGrant nulls))
    let requiredGrants ← s.withDefault 7 "required_access_grants" [] (listOf nulls text)
    some { name, connection, weekStart, timezone, convertsTimezone, mappings, grants, requiredGrants }

def modelMembers (m : Model) : List (String × Value) := [
  ("name", .str m.name),
  ("connection", writeText m.connection),
  ("week_start_day", writeText (m.weekStart.map Weekday.name)),
  ("timezone", writeText m.timezone),
  ("default_convert_timezone", .bool m.convertsTimezone),
  ("mappings", writeDict writeMapping m.mappings),
  ("access_grants", writeList writeGrant m.grants),
  ("required_access_grants", Value.strings m.requiredGrants)]

def writeModel (m : Model) : Value := object (modelMembers m)

end SemanticSql.Document
