import SemanticSql.Dialect

/-!
What can go wrong, by cause. `Error.message` is the only place that holds wording.
-/
namespace SemanticSql

inductive ParseError where
  | template
  | unknownReference (token owner : String)
  | unknownExpression (name : String)
  | missingValue (field expression : String)
  | valueRequired (expression : String)
  | objectValue (text : String)
  | emptyLiteral
  | noDateRange (literal : String)
  | invalidDate (literal : String)
  | operatorWithoutValue (literal : String)
  | sortDirection (clause direction : String)
  | orderByWords (clause : String)
  | subquery
  | mergedItem
  deriving DecidableEq, Repr

inductive ArgumentError where
  | havingWithoutGroups
  | orderByWithoutGroups
  deriving DecidableEq, Repr

inductive JoinError where
  | noPath (base : String) (missing : List String)
  | outsideTopic (view topic : String)
  | joinField (name : String) (query : Nat)
  deriving DecidableEq, Repr

/-- Where a join failed. Only a failure in the whole graph leaves room for a merged result. -/
inductive JoinPlace where
  | graph | topic
  deriving DecidableEq, Repr

inductive ObjectKind where
  | field | view | topic | model
  deriving DecidableEq, Repr

def ObjectKind.name : ObjectKind → String
  | field => "field"
  | view => "view"
  | topic => "topic"
  | model => "model"

/-- An object that is not there for this user, and whether it was looked up or a grant refused it. -/
inductive AccessError where
  | notFound (kind : ObjectKind) (name : String)
  | denied (kind : ObjectKind) (name : String)
  deriving DecidableEq, Repr

inductive ModelError where
  | cycle (id : String) (chain : List String)
  | canonDate (name id : String)
  | nonAdditiveMeasure (name id : String)
  | emptyMapping
  | cumulativeMeasure (id : String)
  deriving DecidableEq, Repr

inductive ConfigError where
  | duplicateView (view : String)
  | viewWithoutTable (view : String)
  | namelessField (view : String) (measure : Bool)
  | duplicateField (field view : String)
  | unknownModel (view model : String)
  | nonAdditiveDimension (id : String)
  | nonAdditiveReference (id name : String)
  | topicBase (topic view : String)
  | topicView (topic view : String)
  | cycle (id : String)
  | fileUnreadable
  | notDirectory (path : String)
  deriving DecidableEq, Repr

inductive QueryError where
  | unknownDialect (name : String)
  | unknownTimezone (name : String)
  | ambiguousField (name : String) (ids : List String)
  | cumulativeUnsupported (dialect : Dialect)
  | symmetricUnsupported (dialect : Dialect)
  | symmetricInflated (dialect : Dialect) (id : String)
  | medianUnsupported (dialect : Dialect) (id : String)
  | derivedColumn (id type : String) (dialect : Dialect)
  | primaryKeyMissing (view : String)
  | distinctKeyMissing (id type : String)
  | notAggregate (id type : String)
  | noSql (id : String)
  | numberColumn (id : String)
  | countWithoutKey (id view : String)
  | cumulativeAggregate (id : String)
  | durationInterval (id name : String)
  | durationEnds (id : String)
  | viewWithoutTable (view : String)
  | nestedWindow (id inner : String)
  | noWindowDimension
  | windowViews (view : String)
  | windowFilterNested (id : String)
  | windowFilterOr (id : String)
  | windowOrder (id : String)
  | noBaseView
  | noFields
  | nothingSelected
  | ambiguousAlias (column id : String)
  | mixedGroup
  | unboundExpression (expression : String)
  | mixedNegation (literal : String)
  | cumulativeField (name : String)
  | noCumulativeMetric
  | cumulativeTarget (id target : String)
  | cumulativeDate (id view : String)
  | cumulativeGrain (id date column : String)
  | funnelKeys
  | funnelUnit (unit : String)
  | funnelWithoutMetric
  | funnelMetric (id : String)
  | funnelSubquery
  | funnelMeasures (ids : List String)
  | funnelTwoDates (first second : String)
  | funnelWithoutDate
  | funnelWithoutLink (metrics : List String)
  | mergedFunnel
  | mergedWithoutMetric
  | mergedFilter (names : List String)
  | mergedOrder (name : String)
  | mergedField (id : String)
  | noMapping (id : String)
  | mergedQueriesEmpty
  | mergedItemKeys
  | mergedItemFunnel
  | mergedItemJoinFields
  | mergedJoinFieldKeys
  | mergedJoinType (value : String)
  | mergedQueriesFilter (id : String)
  | noModel
  | manyModels (names : List String)
  | noDialect
  | dimensionAsMetric (id : String)
  | measureAsDimension (id : String)
  | subqueryKeys (value : String)
  | subqueryField (id : String)
  | subqueryRefused (reason : String)
  | undefinedGrant (grant : String) (kind : ObjectKind) (name : String)
  | unmappedDate (timeframe : String)
  deriving DecidableEq, Repr

inductive Error where
  | parse (cause : ParseError)
  | argument (cause : ArgumentError)
  | join (cause : JoinError) (place : JoinPlace)
  | query (cause : QueryError)
  | access (cause : AccessError)
  | model (cause : ModelError)
  | config (cause : ConfigError)
  | document
  deriving DecidableEq, Repr

def ParseError.message : ParseError → String
  | template => "Could not render template in SQL"
  | unknownReference token owner => s!"Could not locate reference {token} in field {owner}"
  | unknownExpression name => s!"Unknown filter expression: {name}."
  | missingValue field expression => s!"Filter on {field} with expression {expression} is missing a value"
  | valueRequired expression => s!"Filter expression {expression} requires a value"
  | objectValue text => s!"Filter value {text} is an object, which cannot be compared"
  | emptyLiteral => "Filter literal is empty; a value is required"
  | noDateRange literal => s!"Could not compute a date range for {literal}"
  | invalidDate literal => s!"Invalid date in {literal}"
  | operatorWithoutValue literal => s!"Filter literal {literal} has an operator but no value"
  | sortDirection clause direction =>
    s!"Could not parse the order by clause {clause}: unexpected sort direction {direction}"
  | orderByWords clause => s!"Could not parse the order by clause {clause}: expected 'field [asc|desc]'"
  | subquery => "Could not parse the is_in_query subquery"
  | mergedItem => "Could not parse item"

def ArgumentError.message : ArgumentError → String
  | havingWithoutGroups =>
    "You cannot include the 'having' argument with the table's primary key as a dimension. " ++
    "There is no group by statement in this case, so no having can be applied"
  | orderByWithoutGroups =>
    "You cannot include the 'order_by' argument with the table's primary key as a dimension. " ++
    "Metrics that reference multiple values cannot be ordered without a group by"

def JoinError.message : JoinError → String
  | noPath base missing =>
    let views := ", ".intercalate missing
    s!"There was no join path between the view {base} and the views: {views}. " ++
    "Check the identifiers on your views and make sure they are joinable."
  | outsideTopic view topic =>
    s!"The view {view} is not included in the topic {topic}. Add it to the topic or remove it from the query"
  | joinField name query =>
    s!"Join field {name} not found in the query number {query}. To be used as a join the field must " ++
    s!"be included in query {query}."

def AccessError.kind : AccessError → ObjectKind
  | notFound kind _ | denied kind _ => kind

def AccessError.name : AccessError → String
  | notFound _ name | denied _ name => name

def AccessError.message : AccessError → String
  | notFound .field name => s!"Field {name} not found in the project, or you do not have access to it"
  | notFound .view name => s!"View {name} not found in the project, or you do not have access to it"
  | notFound .topic name => s!"Topic {name} not found in the project, or you do not have access to it"
  | notFound .model name => s!"Could not find or you do not have access to model {name}"
  | denied kind name => s!"Could not find or you do not have access to {kind.name} {name}"

def ModelError.message : ModelError → String
  | cycle id chain =>
    let steps := " -> ".intercalate chain
    s!"Circular reference detected in field {id}: {steps}"
  | canonDate name id => s!"The canon date {name} of {id} is not a dimension group"
  | nonAdditiveMeasure name id =>
    s!"The non_additive_dimension {name} of measure {id} must be a dimension, not a measure"
  | emptyMapping => "A mapping must list at least one field"
  | cumulativeMeasure id => s!"Cumulative measure {id} must name the measure it totals"

def cycleText (id : String) : String := s!"Circular reference detected involving field '{id}'"

/-- A file that cannot be read is reported without the settings' lead, as its text goes on with the cause. -/
def ConfigError.message : ConfigError → String
  | fileUnreadable => "Failed to load"
  | duplicateView view => lead s!"Duplicate view name {view} in the project"
  | viewWithoutTable view => lead s!"View {view} needs either a sql_table_name or a derived_table"
  | namelessField view measure =>
    let kind := if measure then "measure" else "dimension"
    lead s!"View {view} has a {kind} without a name"
  | duplicateField field view => lead s!"Duplicate field name {field} in view {view}"
  | unknownModel view model => lead s!"View {view} references unknown model {model}"
  | nonAdditiveDimension id => lead s!"Field {id} has a non_additive_dimension, which only measures can have"
  | nonAdditiveReference id name =>
    lead (s!"The non_additive_dimension of measure {id} references {name}, which is not a dimension " ++
      "in the project")
  | topicBase topic view => lead s!"Topic {topic} has unknown base view {view}"
  | topicView topic view => lead s!"Topic {topic} references unknown view {view}"
  | cycle id => lead (cycleText id)
  | notDirectory path => lead s!"{path} is not a directory"
where
  lead (text : String) : String := "Configuration error: " ++ text

def QueryError.message : QueryError → String
  | unknownDialect name =>
    let known := ", ".intercalate (Dialect.all.map Dialect.name)
    s!"Unknown query type {name}. Supported query types are: {known}"
  | unknownTimezone name => s!"Unknown timezone {name}"
  | ambiguousField name ids =>
    let found := ", ".intercalate ids
    s!"Multiple fields found for the name {name} - those fields were [{found}]. " ++
    "Please specify a view name like this: 'view_name.field_name'"
  | cumulativeUnsupported dialect => s!"Cumulative metrics are not supported for the {dialect.name} dialect"
  | symmetricUnsupported dialect =>
    s!"Symmetric aggregates are not supported in {dialect.name}. Use the 'sum' or 'average' type " ++
    "instead of 'sum_distinct' or 'average_distinct'."
  | symmetricInflated dialect id =>
    s!"Symmetric aggregates are not supported in {dialect.name}. " ++
    s!"The value of {id} may be inflated by a one-to-many join"
  | medianUnsupported dialect id => s!"Median is not supported in {dialect.name}. Measure {id} cannot be compiled"
  | derivedColumn id type dialect =>
    s!"Measure {id} of type {type} cannot be aggregated over a derived column in {dialect.name}"
  | primaryKeyMissing view =>
    s!"The primary key for the view {view} is not defined. To use symmetric aggregates, you need to define " ++
    "the primary key. Define the primary key by adding primary_key: yes to the field that is the primary key " ++
    "of the table."
  | distinctKeyMissing id type => s!"Measure {id} of type {type} needs a sql_distinct_key"
  | notAggregate id type => s!"Measure {id} has type {type}, which is not an aggregate"
  | noSql id => s!"Measure {id} has no sql"
  | numberColumn id =>
    s!"Measure {id} of type number has no single column; select the measures it references instead"
  | countWithoutKey id view =>
    s!"Count measure {id} has filters or a non_additive_dimension, so it needs either sql or a " ++
    s!"primary key on view {view}"
  | cumulativeAggregate id =>
    s!"Cumulative measure {id} cannot be compiled as a plain aggregate. Request it as a metric instead"
  | durationInterval id name =>
    s!"Duration dimension group {id} must be requested with an interval, e.g. days_{name}"
  | durationEnds id => s!"Duration dimension group {id} needs both sql_start and sql_end"
  | viewWithoutTable view => s!"View {view} has neither a sql_table_name nor a derived_table"
  | nestedWindow id inner =>
    s!"Window dimension {id} references the window dimension {inner}. Window functions cannot be nested"
  | noWindowDimension => "No window dimensions to compute"
  | windowViews view => s!"The window functions of view {view} reference views that cannot be joined from it"
  | windowFilterNested id =>
    s!"Window functions filters cannot be nested. Please move the filter on {id} to the top level " ++
    "of the having filters"
  | windowFilterOr id =>
    s!"Window functions filters cannot be in OR statements. Please move the filter on {id} out of " ++
    "the OR group"
  | windowOrder id =>
    s!"Could not order by {id} because it is not selected. Queries filtering on window " ++
    "functions can only be ordered by their metrics and dimensions"
  | noBaseView => "A query needs at least one field to choose a base view"
  | noFields => "The query does not reference any fields. Add at least one metric or dimension"
  | nothingSelected => "Select at least one metric or dimension"
  | ambiguousAlias column id =>
    s!"Ambiguous field names in the metrics and dimensions. The name {column} is used by more than one " ++
    s!"field, e.g. {id}. Rename one of the fields"
  | mixedGroup =>
    "A filter group cannot mix dimensions and measures. Split the group into where and having filters"
  | unboundExpression expression => s!"Filter expression {expression} must be bound before it is rendered"
  | mixedNegation literal =>
    s!"The filter {literal} mixes negated and non-negated values. Use either all negated or no negated values"
  | cumulativeField name =>
    s!"The field {name} is not available in the cumulative query. Add it to the metrics or dimensions"
  | noCumulativeMetric => "The query has no cumulative metric"
  | cumulativeTarget id target =>
    s!"Cumulative measure {id} must reference a measure that aggregates a column, not {target}"
  | cumulativeDate id view =>
    s!"Could not find a date to total cumulative measure {id} over. Set a canon_date on it or a " ++
    s!"default_date on the view {view}"
  | cumulativeGrain id date column =>
    s!"Cumulative measure {id} can only be grouped by the date, week, month, quarter or year " ++
    s!"of {date}, not {column}"
  | funnelKeys => "Funnel query must have 'steps' and 'within' keys"
  | funnelUnit unit =>
    s!"Funnel window unit {unit} is not a valid interval. Use one of second, minute, hour, day, week, " ++
    "month, quarter or year"
  | funnelWithoutMetric => "Funnel queries need at least one metric to count at each step"
  | funnelMetric id => s!"Funnel queries only support measures that aggregate a column, and {id} does not"
  | funnelSubquery => "Funnel steps cannot filter with is_in_query"
  | funnelMeasures ids =>
    let names := ", ".intercalate ids
    s!"Funnel steps can only filter on dimensions, not measures ({names})"
  | funnelTwoDates first second =>
    s!"Could not determine event date for funnel, the metrics use both {first} and {second}"
  | funnelWithoutDate =>
    "Could not determine event date for funnel. Set a default_date on the views of the metrics"
  | funnelWithoutLink metrics =>
    let names := ", ".intercalate metrics
    s!"No link (customer) field found for query with metrics: [{names}]. Make sure you have added a customer " ++
    "tag to the view or a view that can be joined in."
  | mergedFunnel => "Funnel queries are not supported in merged results queries"
  | mergedWithoutMetric => "A merged result query needs at least one metric"
  | mergedFilter names =>
    let fields := ", ".intercalate names
    s!"Could not apply the filter on {fields} to any of the merged results. The field is not " ++
    "reachable from the metrics in the query and has no mapping to them."
  | mergedOrder name =>
    s!"Could not order by {name} because it is not selected by the merged results query. " ++
    "Add it to the metrics or dimensions to order by it."
  | mergedField id => s!"The field {id} is not available in the merged result. Add it to the metrics of the query"
  | noMapping id =>
    s!"Could not find mapping from field {id} to other views. Please add a mapping to your model definition to " ++
    "allow the mapping if you'd like to use this field in a merged result query."
  | mergedQueriesEmpty => "merged_queries must list at least one query"
  | mergedItemKeys => "Each item in merged_queries must have 'metrics' and 'dimensions' keys."
  | mergedItemFunnel => "Funnel queries are not supported in merged_queries"
  | mergedItemJoinFields => "Each item in merged_queries after the first must have 'join_fields' key."
  | mergedJoinFieldKeys =>
    "Each item in join_fields must be an object with the keys 'field' and 'source_field'"
  | mergedJoinType value =>
    s!"The join_type {value} is not valid. Use one of left_outer, inner, full_outer or cross"
  | mergedQueriesFilter id =>
    s!"The field {id} is filtered on but is not selected by any of the merged queries"
  | noModel =>
    "Could not determine the model for this query. Please specify a model to use by passing the " ++
    "name of the model using the 'model_name' parameter"
  | manyModels names =>
    let found := ", ".intercalate names
    s!"More than one model found in this query ({found}). Please specify a model to use by either passing " ++
    "the name of the model using the 'model_name' parameter or by setting the `model_name` property on the view."
  | noDialect =>
    "Could not determine query_type. Please have connection information for your warehouse in the " ++
    "configuration or explicitly pass the 'query_type' argument"
  | dimensionAsMetric id => s!"The field {id} is a dimension. Request it under dimensions instead of metrics"
  | measureAsDimension id => s!"The field {id} is a measure. Request it under metrics instead of dimensions"
  | subqueryKeys value =>
    s!"The is_in_query filter value must be an object with the keys 'query' and 'field'. It was {value}"
  | subqueryField id =>
    s!"The field {id} is not a dimension of the is_in_query subquery. Add it to the subquery " ++
    "dimensions to filter on it"
  | subqueryRefused reason => reason
  | undefinedGrant grant kind name =>
    s!"The access grant {grant} required by {kind.name} {name} is not defined in the model"
  | unmappedDate timeframe =>
    s!"Could not map {timeframe} to a date. Add a metric with a canon_date, or a default_date on its view, " ++
    "to the query"

def Error.message : Error → String
  | parse cause => cause.message
  | argument cause => cause.message
  | join cause _ => cause.message
  | query cause => cause.message
  | access cause => cause.message
  | model cause => cause.message
  | config cause => cause.message
  | document => ""

def Error.isRecoverable : Error → Bool
  | join _ .graph => true
  | _ => false

def Error.isAccess : Error → Bool
  | access _ => true
  | _ => false

def Error.inTopic : Error → Error
  | join cause _ => join cause .topic
  | e => e

theorem Error.isRecoverable_inTopic (e : Error) : e.inTopic.isRecoverable = false := by
  cases e <;> rfl

end SemanticSql
