import SemanticSql.Calendar.Text
import SemanticSql.Document.Model
import SemanticSql.Document.Topic
import SemanticSql.Error
import SemanticSql.Settings
import SemanticSql.Value.Yaml

/-! Documents that hold definitions. A document whose `type` is a model, a view or a topic is that single object, and
null is refused in it for lists and mappings; any other document lists definitions of all kinds. -/
namespace SemanticSql.Document

def readConnection (nulls : Nulls) : Value → Option Connection :=
  record nulls 2 fun s => do
    let name ← s.required 0 "name" text
    let dialect ← s.required 1 "type" (named nulls Dialect.ofName?)
    some { name, dialect }

def writeConnection (c : Connection) : Value := object [("name", .str c.name),("type", .str c.dialect.name)]

def readTime (v : Value) : Option DateTime := (text v).bind DateTime.parseSpaced?

def readSettings (nulls : Nulls) : Value → Option Settings :=
  record nulls 6 fun s => do
    let defaultDialect ← s.open? 0 "default_dialect" (named nulls Dialect.ofName?)
    let timezone ← s.open? 1 "timezone" text
    let weekStart ← s.open? 2 "week_start_day" (named nulls Weekday.ofName?)
    let now ← s.open? 3 "now" readTime
    let strictAggregates ← s.withDefault 4 "strict_symmetric_aggregates" false truth
    let suppressWarnings ← s.withDefault 5 "suppress_warnings" false truth
    some { defaultDialect, timezone, weekStart, now, strictAggregates, suppressWarnings }

def writeSettings (s : Settings) : Value :=
  object [
    ("default_dialect", writeText (s.defaultDialect.map Dialect.name)),
    ("timezone", writeText s.timezone),
    ("week_start_day", writeText (s.weekStart.map Weekday.name)),
    ("now", writeText (s.now.map DateTime.fullText)),
    ("strict_symmetric_aggregates", .bool s.strictAggregates),
    ("suppress_warnings", .bool s.suppressWarnings)]

def readDefinitions (nulls : Nulls) : Value → Option Definitions :=
  record nulls 5 fun s => do
    let models ← s.withDefault 0 "models" [] (listOf nulls (readModel nulls))
    let views ← s.withDefault 1 "views" [] (listOf nulls (readView nulls))
    let topics ← s.withDefault 2 "topics" [] (listOf nulls (readTopic nulls))
    let connections ← s.withDefault 3 "connections" [] (listOf nulls (readConnection nulls))
    let settings ← s.open? 4 "options" (readSettings nulls)
    some { models, views, topics, connections, settings }

def writeDefinitions (d : Definitions) : Value :=
  object [
    ("models", writeList writeModel d.models),
    ("views", writeList writeView d.views),
    ("topics", writeList writeTopic d.topics),
    ("connections", writeList writeConnection d.connections),
    ("options", Value.orNull writeSettings d.settings)]

def read (v : Value) : Option Definitions :=
  match (v.get? "type").bind Value.str? with
  | some "model" => (readModel .refused v).map fun m => { models := [m] }
  | some "view" => (readView .refused v).map fun x => { views := [x] }
  | some "topic" => (readTopic .refused v).map fun t => { topics := [t] }
  | _ => readDefinitions .empty v

def parse (source : String) : Except Error Definitions :=
  match (Yaml.parse? source).bind read with
  | some d => .ok d
  | none => .error .document

end SemanticSql.Document
