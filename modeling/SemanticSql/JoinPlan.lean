import SemanticSql.JoinPlan.Solve
import SemanticSql.Project

/-!
Join plans: the base view of a query, the joins to all views that it needs, and which views need symmetric
aggregates.
-/
namespace SemanticSql

structure JoinPlan where
  base : View
  joins : List Join
  key : FunctionalKey
  symmetric : NameSet
  deriving Repr

namespace JoinPlan

def viewNames (plan : JoinPlan) : List String := plan.base.name :: plan.joins.map Join.target

def candidates (preferred : List String) (required : NameSet) : List String :=
  ((preferred ++ required).filter required.contains).eraseDups

def inducedBase? (g : JoinGraph) (required : NameSet) (candidates : List String) :
    Option (String × List Join) :=
  candidates.findSome? fun base => (induced? g base required).map fun joins => (base, joins)

def solveFirst (g : JoinGraph) (required : NameSet) (failure : Option Error) :
    List String → Except (Option Error) (String × List Join)
  | [] => .error failure
  | base :: rest =>
    match solve g base required with
    | .ok joins => .ok (base, joins)
    | .error e => if e.isRecoverable then solveFirst g required (failure <|> some e) rest else .error (some e)

def solveAny (g : JoinGraph) (required : NameSet) (candidates : List String) :
    Except Error (String × List Join) :=
  match candidates with
  | [] => .error (.query .noBaseView)
  | first :: _ =>
    if required.length = 1 then .ok (first, [])
    else
      match inducedBase? g required candidates with
      | some found => .ok found
      | none =>
        match solveFirst g required none candidates with
        | .ok found => .ok found
        | .error failure => .error (failure.getD (noPath first required))

def solveInTopic (g : JoinGraph) (topic : Topic) (required : NameSet) : Except Error (String × List Join) :=
  match required.find? fun v => !topic.containsView v with
  | some outside => .error (.join (.outsideTopic outside topic.name) .topic)
  | none =>
    let inside := g.restrict (NameSet.ofList topic.viewNames) topic.joins
    match solve inside topic.baseView (NameSet.insert topic.baseView required) with
    | .ok joins => .ok (topic.baseView, joins)
    | .error e => .error e.inTopic

def ofJoins (base : View) (joins : List Join) : JoinPlan :=
  let key := FunctionalKey.of base.name joins
  { base, joins, key, symmetric := symmetricViews base.name joins key }

/-- The base of a topic is fixed; otherwise the preferred views are tried first, then the others by name. -/
def build (p : Project) (required : NameSet) (preferred : List String) (topic : Option Topic) :
    Except Error JoinPlan := do
  let (base, joins) ← match topic with
    | some topic => solveInTopic p.graph topic required
    | none => solveAny p.graph required (candidates preferred required)
  .ok (ofJoins (← p.view base) joins)

end JoinPlan

end SemanticSql
