import SemanticSql.Document.View
import SemanticSql.Topic

/-!
Topics in documents.
-/
namespace SemanticSql.Document

def readTopicJoin (nulls : Nulls) : Value → Option TopicJoin :=
  record nulls 3 fun s => do
    let kind ← s.withDefault 0 "join_type" .leftOuter (named nulls JoinKind.ofName?)
    let relationship ← s.withDefault 1 "relationship" .manyToOne (named nulls Relationship.ofName?)
    let condition ← s.required 2 "sql_on" text
    some { kind, relationship, condition }

def writeTopicJoin (j : TopicJoin) : Value :=
  object [
    ("join_type", .str j.kind.name),
    ("relationship", .str j.relationship.name),
    ("sql_on", .str j.condition)]

def readTopicView (nulls : Nulls) : Value → Option TopicView :=
  record nulls 2 fun s => do
    let join ← s.optional 0 "join" (readTopicJoin nulls)
    let overridesAccessFilters ← s.withDefault 1 "override_access_filters" false truth
    some { join, overridesAccessFilters }

def writeTopicView (v : TopicView) : Value :=
  object [
    ("join", Value.orNull writeTopicJoin v.join),
    ("override_access_filters", .bool v.overridesAccessFilters)]

def readTopic (nulls : Nulls) : Value → Option Topic :=
  record nulls 7 fun s => do
    let name ← s.required 0 "name" text
    let modelName ← s.optional 1 "model_name" text
    let baseView ← s.required 2 "base_view" text
    let views ← s.withDefault 3 "views" [] (dictOf nulls (readTopicView nulls))
    let alwaysFilters ← s.withDefault 4 "always_filter" [] (listOf nulls (readFilter nulls))
    let accessFilters ← s.withDefault 5 "access_filters" [] (listOf nulls (readAccessFilter nulls))
    let requiredGrants ← s.withDefault 6 "required_access_grants" [] (listOf nulls text)
    some { name, modelName, baseView, views, alwaysFilters, accessFilters, requiredGrants }

def topicMembers (t : Topic) : List (String × Value) := [
  ("name", .str t.name),
  ("model_name", writeText t.modelName),
  ("base_view", .str t.baseView),
  ("views", writeDict writeTopicView t.views),
  ("always_filter", writeList writeFilter t.alwaysFilters),
  ("access_filters", writeList writeAccessFilter t.accessFilters),
  ("required_access_grants", Value.strings t.requiredGrants)]

def writeTopic (t : Topic) : Value := object (topicMembers t)

end SemanticSql.Document
