import SemanticSql.Error
import SemanticSql.JoinGraph.Path
import SemanticSql.JoinPlan.Key

/-!
Finding joins that cover a set of views from a base view: first inside the set alone, then by paths through
other views.
-/
namespace SemanticSql.JoinPlan

/-- Breadth-first search inside the required views; `n` bounds the number of views taken from the queue. -/
def searchTree (g : JoinGraph) (required : NameSet) : Nat → List String → List String → List Join → List Join
  | 0, _, _, tree => tree
  | _, [], _, tree => tree
  | n + 1, view :: queue, visited, tree =>
    let (visited, found) := (g.outgoing view).foldl
      (fun (acc : List String × List Join) j =>
        if required.contains j.target && !acc.1.contains j.target then (j.target :: acc.1, acc.2 ++ [j]) else acc)
      (visited, [])
    searchTree g required n (queue ++ found.map Join.target) visited (tree ++ found)

def mustPrecede (before after : Join) : Bool :=
  after.base == before.target || after.dependencies.contains before.target

def isReady (left : List (Nat × Join)) (i : Nat) (j : Join) : Bool :=
  left.all fun (k, b) => k == i || !mustPrecede b j

def orderFrom : Nat → List (Nat × Join) → Option (List Join)
  | _, [] => some []
  | 0, _ :: _ => none
  | n + 1, left =>
    match left.find? fun (i, j) => isReady left i j with
    | none => none
    | some (i, j) => (orderFrom n (left.filter fun e => e.1 != i)).map fun rest => j :: rest

/-- The joins in an order in which each follows those it builds on, as close to the given one as possible. -/
def order? (joins : List Join) : Option (List Join) :=
  orderFrom joins.length (joins.zipIdx.map fun (j, i) => (i, j))

def cleanFrom (joined : List String) : List Join → List Join
  | [] => []
  | j :: rest =>
    if j.base == j.target || joined.contains j.target then cleanFrom joined rest
    else j :: cleanFrom (j.target :: joined) rest

def clean (base : String) (joins : List Join) : List Join := cleanFrom [base] joins

def induced? (g : JoinGraph) (base : String) (required : NameSet) : Option (List Join) :=
  let tree := searchTree g required (required.length + 1) [base] [base] []
  let visited := base :: tree.map Join.target
  if required.all visited.contains && tree.all (fun j => j.dependencies.all visited.contains) then
    (order? tree).map (clean base)
  else none

def pathCost (path : List Join) : Nat := (path.map Join.weight).foldl (· + ·) 0

def cheapest? (g : JoinGraph) (sources : List String) (target : String) : Option (List Join) :=
  let paths := sources.filterMap fun s => g.path? s target
  match paths with
  | [] => none
  | p :: rest => some (rest.foldl (fun best p => if pathCost p < pathCost best then p else best) p)

/-- Adds paths to missing views until none is missing or none can be reached; the second part is what stays missing.
-/
def patch (g : JoinGraph) (base : String) (required : NameSet) : Nat → List Join → List Join × NameSet
  | n, joins =>
    let reached := joinedViews base joins
    let missing := required.filter fun v => !reached.contains v
    match n with
    | 0 => (joins, missing)
    | n + 1 =>
      match missing.findSome? (cheapest? g reached) with
      | some path => patch g base required n (clean base (joins ++ path))
      | none => (joins, missing)

def noPath (base : String) (missing : NameSet) : Error := .join (.noPath base missing) .graph

/-- Joins to try first when views are missing: those at bridges, then those inside the set, by their ends. -/
def seeds (g : JoinGraph) (required : NameSet) : List Join :=
  let rank := fun j : Join =>
    let bridge := g.isBridge j.base || g.isBridge j.target
    let inside := required.contains j.base && required.contains j.target
    (if bridge then 0 else 2) + (if inside then 0 else 1)
  (g.sortedJoins.filter fun j => required.contains j.base || required.contains j.target).mergeSort
    fun a b => rank a ≤ rank b

def fewer (a : Option NameSet) (b : NameSet) : Option NameSet :=
  match a with
  | none => some b
  | some a => if b.length < a.length then some b else some a

/-- Starts from each seed in turn; the second argument is the smallest set that stayed missing so far. -/
def trySeeds (g : JoinGraph) (base : String) (required : NameSet) (best : Option NameSet) :
    List Join → Except (Option NameSet) (List Join)
  | [] => .error best
  | seed :: rest =>
    match g.path? base seed.base with
    | none => trySeeds g base required best rest
    | some path =>
      let (joins, missing) := patch g base required required.length (clean base (path ++ [seed]))
      if missing.isEmpty then .ok joins else trySeeds g base required (fewer best missing) rest

def cover (g : JoinGraph) (base : String) (required : NameSet) : Except Error (List Join) :=
  match trySeeds g base required none (seeds g required) with
  | .ok joins => .ok joins
  | .error best =>
    let (joins, missing) := patch g base required required.length []
    if missing.isEmpty then .ok joins
    else
      match best with
      | some fewest => .error (noPath base (if fewest.length < missing.length then fewest else missing))
      | none => .error (noPath base missing)

def solve (g : JoinGraph) (base : String) (required : NameSet) : Except Error (List Join) :=
  if required.all fun v => v == base then .ok []
  else
    match induced? g base required with
    | some joins => .ok joins
    | none =>
      if required.length = 2 then
        let missing := required.filter fun v => v != base
        match missing.head?.bind (g.path? base) with
        | some path => .ok (clean base path)
        | none => .error (noPath base missing)
      else cover g base required

end SemanticSql.JoinPlan
