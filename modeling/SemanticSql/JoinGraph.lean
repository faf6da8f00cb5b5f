import SemanticSql.View

/-!
The graph of views and the joins between them. Between two views there is at most one join in each direction:
the first one declared.
-/
namespace SemanticSql

structure JoinGraph where
  views : NameSet
  joins : List Join
  bridges : NameSet := []
  deriving DecidableEq, Repr

namespace JoinGraph

def join? (g : JoinGraph) (source target : String) : Option Join :=
  g.joins.find? fun j => j.base == source && j.target == target

/-- Adds a join, and its views if they are new; a join between the same views that is there already stays. -/
def add (g : JoinGraph) (j : Join) : JoinGraph where
  views := NameSet.insert j.target (NameSet.insert j.base g.views)
  joins := if (g.join? j.base j.target).isSome then g.joins else g.joins ++ [j]
  bridges := g.bridges

def ofJoins (views : List String) (joins : List Join) (bridges : NameSet) : JoinGraph :=
  joins.foldl add { views := NameSet.ofList views, joins := [], bridges }

def containsView (g : JoinGraph) (view : String) : Bool := g.views.contains view

def isBridge (g : JoinGraph) (view : String) : Bool := g.bridges.contains view

def precedes (a b : Join) : Bool := a.weight < b.weight || (a.weight == b.weight && a.target ≤ b.target)

def outgoing (g : JoinGraph) (view : String) : List Join :=
  (g.joins.filter fun j => j.base == view).mergeSort precedes

def sortedJoins (g : JoinGraph) : List Join :=
  g.joins.mergeSort fun a b => a.base < b.base || (a.base == b.base && a.target ≤ b.target)

def step (joins : List Join) (reached : NameSet) : NameSet :=
  NameSet.union reached ((joins.filter fun j => reached.contains j.base).map Join.target)

def within (joins : List Join) : Nat → NameSet → NameSet
  | 0, reached => reached
  | n + 1, reached => within joins n (step joins reached)

def reachable (g : JoinGraph) (view : String) : NameSet :=
  if g.containsView view then within g.joins g.views.length [view] else []

/-- The graph on a set of views. An override replaces every join of the graph that touches its target; it also
counts in the other direction, unless it fans out there. -/
def restrict (g : JoinGraph) (views : NameSet) (overrides : List Join) : JoinGraph :=
  let overridden := overrides.map Join.target
  let declared := overrides.flatMap fun j =>
    if j.inverted.relationship.isFanout then [j] else [j,j.inverted]
  let kept := g.sortedJoins.filter fun j =>
    views.contains j.base && views.contains j.target &&
    !overridden.contains j.target && !overridden.contains j.base
  ofJoins views (declared ++ kept) (g.bridges.filter fun v => views.contains v)

end JoinGraph

end SemanticSql
