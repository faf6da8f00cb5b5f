import SemanticSql.Document.Field
import SemanticSql.View

/-!
Views and their identifiers in documents.
-/
namespace SemanticSql.Document

def readIdentifierTo (nulls : Nulls) : Nat → Value → Option Identifier
  | 0, _ => none
  | depth + 1, v =>
    record nulls 8 (fun s => do
      let name ← s.required 0 "name" text
      let kind ← s.required 1 "type" (named nulls IdentifierKind.ofName?)
      let sql ← s.optional 2 "sql" text
      let reference ← s.optional 3 "reference" text
      let relationship ← s.optional 4 "relationship" (named nulls Relationship.ofName?)
      let condition ← s.optional 5 "sql_on" text
      let joinKind ← s.optional 6 "join_type" (named nulls JoinKind.ofName?)
      let parts ← s.withDefault 7 "identifiers" [] (listOf nulls (readIdentifierTo nulls depth))
      some (.mk name kind sql reference relationship condition joinKind parts)) v

def readIdentifier (nulls : Nulls) (v : Value) : Option Identifier := readIdentifierTo nulls (v.depth + 1) v

mutual

def writeIdentifier : Identifier → Value
  | .mk name kind sql reference relationship condition joinKind parts =>
    object [
      ("name", .str name),
      ("type", .str kind.name),
      ("sql", writeText sql),
      ("reference", writeText reference),
      ("relationship", writeText (relationship.map Relationship.name)),
      ("sql_on", writeText condition),
      ("join_type", writeText (joinKind.map JoinKind.name)),
      ("identifiers", .list (writeIdentifiers parts))]

def writeIdentifiers : List Identifier → List Value
  | [] => []
  | i :: rest => writeIdentifier i :: writeIdentifiers rest

end

def readAccessFilter (nulls : Nulls) : Value → Option AccessFilter :=
  record nulls 2 fun s => do
    let field ← s.required 0 "field" text
    let userAttribute ← s.required 1 "user_attribute" text
    some { field, userAttribute }

def writeAccessFilter (f : AccessFilter) : Value :=
  object [("field", .str f.field),("user_attribute", .str f.userAttribute)]

def readDerived (nulls : Nulls) : Value → Option String := record nulls 1 fun s => s.required 0 "sql" text

def writeDerived (sql : String) : Value := object [("sql", .str sql)]

def readView (nulls : Nulls) : Value → Option View :=
  record nulls 11 fun s => do
    let name ← s.required 0 "name" text
    let modelName ← s.optional 1 "model_name" text
    let tableName ← s.optional 2 "sql_table_name" text
    let derivedSql ← s.optional 3 "derived_table" (readDerived nulls)
    let defaultDate ← s.optional 4 "default_date" text
    let fields ← s.withDefault 5 "fields" [] (listOf nulls (readField nulls))
    let identifiers ← s.withDefault 6 "identifiers" [] (listOf nulls (readIdentifier nulls))
    let accessFilters ← s.withDefault 7 "access_filters" [] (listOf nulls (readAccessFilter nulls))
    let alwaysFilters ← s.withDefault 8 "always_filter" [] (listOf nulls (readFilter nulls))
    let requiredGrants ← s.withDefault 9 "required_access_grants" [] (listOf nulls text)
    let allowedFanouts ← s.withDefault 10 "allowed_fanouts" [] (listOf nulls text)
    some {
      name, modelName, tableName, derivedSql, defaultDate, fields, identifiers, accessFilters, alwaysFilters,
      requiredGrants, allowedFanouts }

def viewMembers (v : View) : List (String × Value) := [
  ("name", .str v.name),
  ("model_name", writeText v.modelName),
  ("sql_table_name", writeText v.tableName),
  ("derived_table", Value.orNull writeDerived v.derivedSql),
  ("default_date", writeText v.defaultDate),
  ("fields", writeList writeField v.fields),
  ("identifiers", writeList writeIdentifier v.identifiers),
  ("access_filters", writeList writeAccessFilter v.accessFilters),
  ("always_filter", writeList writeFilter v.alwaysFilters),
  ("required_access_grants", Value.strings v.requiredGrants),
  ("allowed_fanouts", Value.strings v.allowedFanouts)]

def writeView (v : View) : Value := object (viewMembers v)

end SemanticSql.Document
