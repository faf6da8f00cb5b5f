import SemanticSql.Document.Codec
import SemanticSql.Field

/-!
Fields in documents.
-/
namespace SemanticSql.Document

def readFilter (nulls : Nulls) : Value → Option FieldFilter :=
  record nulls 2 fun s => do
    let field ← s.required 0 "field" text
    let value ← s.required 1 "value" text
    some { field, value }

def writeFilter (f : FieldFilter) : Value := object [("field", .str f.field),("value", .str f.value)]

def readBranch (nulls : Nulls) : Value → Option CaseBranch :=
  record nulls 2 fun s => do
    let sql ← s.required 0 "sql" text
    let label ← s.required 1 "label" text
    some { sql, label }

def writeBranch (b : CaseBranch) : Value := object [("sql", .str b.sql),("label", .str b.label)]

def readCases (nulls : Nulls) : Value → Option CaseTable :=
  record nulls 2 fun s => do
    let branches ← s.required 0 "whens" (listOf nulls (readBranch nulls))
    let otherwise ← s.optional 1 "else" text
    some { branches, otherwise }

def writeCases (c : CaseTable) : Value :=
  object [("whens", writeList writeBranch c.branches),("else", writeText c.otherwise)]

def readNonAdditive (nulls : Nulls) : Value → Option NonAdditive :=
  record nulls 5 fun s => do
    let name ← s.required 0 "name" text
    let keep ← s.required 1 "window_choice" (named nulls WindowEnd.ofName?)
    let groupings ← s.withDefault 2 "window_groupings" [] (listOf nulls text)
    let followsQuery ← s.withDefault 3 "window_aware_of_query_dimensions" true truth
    let nullsEqual ← s.withDefault 4 "nulls_are_equal" false truth
    some { name, keep, groupings, followsQuery, nullsEqual }

def writeNonAdditive (d : NonAdditive) : Value :=
  object [
    ("name", .str d.name),
    ("window_choice", .str d.keep.name),
    ("window_groupings", Value.strings d.groupings),
    ("window_aware_of_query_dimensions", .bool d.followsQuery),
    ("nulls_are_equal", .bool d.nullsEqual)]

def readField (nulls : Nulls) : Value → Option Field :=
  record nulls 25 fun s => do
    let name ← s.required 0 "name" text
    let role ← s.withDefault 1 "field_type" .dimension (named nulls FieldRole.ofName?)
    let type ← s.withDefault 2 "type" .string (named nulls FieldType.ofName?)
    let sql ← s.optional 3 "sql" text
    let sqlStart ← s.optional 4 "sql_start" text
    let sqlEnd ← s.optional 5 "sql_end" text
    let timeframes ← s.withDefault 6 "timeframes" [] (listOf nulls (named nulls TimeFrame.ofName?))
    let intervals ← s.withDefault 7 "intervals" [] (listOf nulls (named nulls Interval.ofName?))
    let datatype ← s.withDefault 8 "datatype" .timestamp (named nulls Datatype.ofName?)
    let convertTimezone ← s.optional 9 "convert_timezone" truth
    let canonDate ← s.optional 10 "canon_date" text
    let primaryKey ← s.withDefault 11 "primary_key" false truth
    let hidden ← s.withDefault 12 "hidden" false truth
    let tags ← s.withDefault 13 "tags" [] (listOf nulls text)
    let filters ← s.withDefault 14 "filters" [] (listOf nulls (readFilter nulls))
    let cases ← s.optional 15 "case" (readCases nulls)
    let tiers ← s.withDefault 16 "tiers" [] (listOf nulls number)
    let distinctKey ← s.optional 17 "sql_distinct_key" text
    let measure ← s.optional 18 "measure" text
    let cumulativeWhere ← s.optional 19 "cumulative_where" text
    let nonAdditive ← s.optional 20 "non_additive_dimension" (readNonAdditive nulls)
    let isMergedResult ← s.withDefault 21 "is_merged_result" false truth
    let requiredGrants ← s.withDefault 22 "required_access_grants" [] (listOf nulls text)
    let label ← s.optional 23 "label" text
    let description ← s.optional 24 "description" text
    some {
      name, role, type, sql, sqlStart, sqlEnd, timeframes, intervals, datatype, convertTimezone, canonDate,
      primaryKey, hidden, tags, filters, cases, tiers, distinctKey, measure, cumulativeWhere, nonAdditive,
      isMergedResult, requiredGrants, label, description }

def writeField (f : Field) : Value :=
  object [
    ("name", .str f.name),
    ("field_type", .str f.role.name),
    ("type", .str f.type.name),
    ("sql", writeText f.sql),
    ("sql_start", writeText f.sqlStart),
    ("sql_end", writeText f.sqlEnd),
    ("timeframes", Value.strings (f.timeframes.map TimeFrame.name)),
    ("intervals", Value.strings (f.intervals.map Interval.name)),
    ("datatype", .str f.datatype.name),
    ("convert_timezone", Value.orNull .bool f.convertTimezone),
    ("canon_date", writeText f.canonDate),
    ("primary_key", .bool f.primaryKey),
    ("hidden", .bool f.hidden),
    ("tags", Value.strings f.tags),
    ("filters", writeList writeFilter f.filters),
    ("case", Value.orNull writeCases f.cases),
    ("tiers", writeList .float f.tiers),
    ("sql_distinct_key", writeText f.distinctKey),
    ("measure", writeText f.measure),
    ("cumulative_where", writeText f.cumulativeWhere),
    ("non_additive_dimension", Value.orNull writeNonAdditive f.nonAdditive),
    ("is_merged_result", .bool f.isMergedResult),
    ("required_access_grants", Value.strings f.requiredGrants),
    ("label", writeText f.label),
    ("description", writeText f.description)]

end SemanticSql.Document
