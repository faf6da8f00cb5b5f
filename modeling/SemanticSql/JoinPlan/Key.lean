import SemanticSql.Join

/-!
The grain of joined rows. A list of joins starts at a base view, and each join leaves the base or a view joined
before.
-/
namespace SemanticSql

inductive FunctionalKey where
  | view (name : String)
  | absent
  deriving DecidableEq, Repr

namespace FunctionalKey

def rootPath (base : String) (j : Join) : List Join → List Join
  | [] => [j]
  | k :: earlier =>
    if j.base = base then [j]
    else if k.target = j.base then rootPath base k earlier ++ [j]
    else rootPath base j earlier

def rootPaths (base : String) (earlier : List Join) : List Join → List (List Join)
  | [] => []
  | j :: rest => rootPath base j earlier :: rootPaths base (j :: earlier) rest

def fanouts? (previous : Option Relationship) : List Join → Option (List String)
  | [] => some []
  | j :: rest => do
    let others ← fanouts? (some j.relationship) rest
    if j.relationship = .oneToMany then
      if previous = some .manyToOne then none else some (j.target :: others)
    else some others

def longest : List (List String) → List String
  | [] => []
  | s :: rest => rest.foldl (fun best s => if best.length < s.length then s else best) s

def of (base : String) (joins : List Join) : FunctionalKey :=
  if joins.any fun j => j.relationship == .manyToMany then absent
  else
    match (rootPaths base [] joins).mapM (fanouts? none) with
    | none => absent
    | some sequences =>
      let best := longest sequences
      if sequences.all fun s => s.isPrefixOf best then view (best.getLast?.getD base) else absent

end FunctionalKey

def joinedViews (base : String) (joins : List Join) : NameSet := NameSet.ofList (base :: joins.map Join.target)

def linkStep (joins : List Join) (linked : NameSet) : NameSet :=
  NameSet.union linked ((joins.filter fun j => j.relationship == .oneToOne).flatMap fun j =>
    (if linked.contains j.base then [j.target] else []) ++ (if linked.contains j.target then [j.base] else []))

def linkedViews (joins : List Join) : Nat → NameSet → NameSet
  | 0, linked => linked
  | n + 1, linked => linkedViews joins n (linkStep joins linked)

def symmetricViews (base : String) (joins : List Join) (key : FunctionalKey) : NameSet :=
  let views := joinedViews base joins
  let fanouts := (joins.filter fun j => j.relationship == .oneToMany).length
  match key with
  | .view grain =>
    if fanouts ≤ 1 then
      let linked := linkedViews joins joins.length [grain]
      views.filter fun v => !linked.contains v
    else views
  | .absent => views

end SemanticSql
