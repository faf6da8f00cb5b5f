import SemanticSql.JoinGraph

/-! Cheapest join paths. A table holds the best route found to each view; every round extends all routes by one join,
so that after `n` rounds it holds the cheapest routes of at most `n` joins. -/
namespace SemanticSql

structure Route where
  target : String
  cost : Nat
  joins : List Join
  deriving DecidableEq, Repr

namespace Route

def extend (r : Route) (j : Join) : Route := ⟨j.target,r.cost + j.weight,r.joins ++ [j]⟩

def insert (r : Route) : List Route → List Route
  | [] => [r]
  | s :: rest =>
    if s.target = r.target then (if r.cost < s.cost then r else s) :: rest else s :: insert r rest

def round (joins : List Join) (table : List Route) : List Route :=
  (table.flatMap fun r => (joins.filter fun j => j.base == r.target).map r.extend).foldl
    (fun table r => insert r table) table

def rounds (joins : List Join) : Nat → List Route → List Route
  | 0, table => table
  | n + 1, table =>
    let next := round joins table
    if next = table then table else rounds joins n next

end Route

namespace JoinGraph

def routes (g : JoinGraph) (source : String) : List Route :=
  if g.containsView source then Route.rounds g.joins g.views.length [⟨source,0,[]⟩] else []

def path? (g : JoinGraph) (source target : String) : Option (List Join) :=
  ((g.routes source).find? fun r => r.target == target).map Route.joins

end JoinGraph

end SemanticSql
