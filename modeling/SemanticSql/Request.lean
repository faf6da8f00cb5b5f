import SemanticSql.Filter.Predicate
import SemanticSql.Text.Cut
import SemanticSql.Value

/-!
Requests: the metrics and dimensions that are asked for, with filters, an order, and optionally a funnel or
queries to merge.
-/
namespace SemanticSql

inductive Connective where
  | and | or
  deriving DecidableEq, Repr

namespace Connective

def name : Connective → String
  | and => "AND"
  | or => "OR"

def ofName? (s : String) : Option Connective :=
  if s = "AND" ∨ s = "and" then some and
  else if s = "OR" ∨ s = "or" then some or
  else none

theorem ofName?_name (c : Connective) : ofName? c.name = some c := by cases c <;> decide

end Connective

inductive FilterSpec where
  | group (conditions : List FilterSpec) (connective : Connective)
  | condition (field expression : String) (value : Option Value)
  deriving Repr

mutual

def FilterSpec.fieldNames : FilterSpec → List String
  | .group conditions _ => fieldNamesOf conditions
  | .condition field _ _ => [field]

def fieldNamesOf : List FilterSpec → List String
  | [] => []
  | f :: rest => f.fieldNames ++ fieldNamesOf rest

end

inductive Clause where
  | text (s : String)
  | list (specs : List FilterSpec)
  | single (spec : FilterSpec)
  deriving Repr

def Clause.fieldNames : Clause → List String
  | text _ => []
  | list specs => fieldNamesOf specs
  | single spec => spec.fieldNames

structure OrderEntry where
  field : String
  descending : Bool := false
  deriving DecidableEq, Repr

inductive OrderBy where
  | text (s : String)
  | list (entries : List OrderEntry)
  deriving DecidableEq, Repr

namespace OrderBy

def entry (clause item : String) : Except Error OrderEntry :=
  match Text.words item with
  | [] => .ok { field := "" }
  | field :: rest => do
    let descending ← match rest.head?.map Text.lower with
      | none | some "asc" => Except.ok false
      | some "desc" => Except.ok true
      | some other => .error (.parse (.sortDirection clause other))
    if rest.length > 1 then .error (.parse (.orderByWords clause)) else .ok { field, descending }

def entries : OrderBy → Except Error (List OrderEntry)
  | list entries => .ok entries
  | text clause => (((Text.split ',' clause).map Text.trim).filter fun s => !s.isEmpty).mapM (entry clause)

end OrderBy

structure FunnelWindow where
  value : Int
  unit : String
  deriving DecidableEq, Repr

def FunnelWindow.interval (w : FunnelWindow) : Except Error Interval :=
  match Interval.ofPlural? (Text.lower (Text.trim w.unit)) with
  | some interval => .ok interval
  | none => .error (.query (.funnelUnit w.unit))

structure Funnel where
  steps : List Clause := []
  within : Option FunnelWindow := none
  deriving Repr

def Funnel.window (f : Funnel) : Except Error FunnelWindow :=
  match f.within, f.steps with
  | some w, _ :: _ => .ok w
  | _, _ => .error (.query .funnelKeys)

structure Request where
  metrics : List String := []
  dimensions : List String := []
  filter : Option Clause := none
  having : Option Clause := none
  orderBy : Option OrderBy := none
  funnel : Option Funnel := none
  mergedQueries : Option (List Value) := none
  limit : Option Nat := none
  dialect : Option Dialect := none
  mergedResult : Bool := false
  singleQuery : Bool := false
  forceGroupBy : Bool := false
  topic : Option String := none
  model : Option String := none
  userAttributes : Dict String := []
  deriving Repr, Inhabited

def Request.fieldNames (r : Request) : List String :=
  r.metrics ++ r.dimensions ++
  (r.filter.map Clause.fieldNames).getD [] ++
  (r.having.map Clause.fieldNames).getD [] ++
  match r.orderBy.map OrderBy.entries with
  | some (.ok entries) => entries.map OrderEntry.field
  | _ => []

end SemanticSql
