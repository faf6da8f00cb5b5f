import SemanticSql.JoinGraph

/-!
The joins that the identifiers of views declare. Two views join on identifiers of the same name; explicit joins name
their target.
-/
namespace SemanticSql

namespace Identifier

def tableReference : List Char := "$\x7bTABLE\x7d".toList

def bareLength? (cs : List Char) : Option Nat :=
  (Reference.length? cs).bind fun n =>
    let body := ((cs.take n).drop 2).dropLast
    if body.all fun c => c.isAlphanum || c = '_' then some n else none

/-- Names the view in every reference of a key, so that it can be read outside of the view. -/
def qualify (view sql : String) : String :=
  let named := Text.substitute (Text.lengthIfLeading tableReference) (fun _ => view.toList) sql.toList
  String.ofList (Text.substitute bareLength?
    (fun token => ['$','\x7b'] ++ view.toList ++ '.' :: token.drop 2) named)

mutual

def keySql (view : String) : Identifier → String
  | mk name _ sql _ _ _ _ parts =>
    match parts with
    | [] => qualify view (sql.getD ("$\x7b" ++ name ++ "\x7d"))
    | p :: ps => ", ".intercalate (keySql view p :: keySqls view ps)

def keySqls (view : String) : List Identifier → List String
  | [] => []
  | i :: rest => keySql view i :: keySqls view rest

end

def relationship? (a b : IdentifierKind) : Option Relationship :=
  match a, b with
  | .foreign, .primary => some .manyToOne
  | .primary, .primary => some .oneToOne
  | .primary, .foreign => some .oneToMany
  | .foreign, .foreign => some .manyToMany
  | _, _ => none

/-- Two keys are equal; keys with parts are equal part by part, and parts match by name. -/
def equality (a : String) (ia : Identifier) (b : String) (ib : Identifier) : String :=
  if ia.isComposite && ib.isComposite then
    " and ".intercalate (ia.parts.filterMap fun pa =>
      (ib.parts.find? fun pb => pb.name == pa.name).map fun pb => pa.keySql a ++ "=" ++ pb.keySql b)
  else ia.keySql a ++ "=" ++ ib.keySql b

def join? (a : View) (ia : Identifier) (b : View) (ib : Identifier) : Option Join := do
  let relationship ← relationship? ia.kind ib.kind
  guard (!relationship.isFanout || a.allowedFanouts.contains b.name)
  some { base := a.name, target := b.name, relationship, condition := equality a.name ia b.name ib }

def explicitJoins (view : View) (i : Identifier) : List Join :=
  match i.reference, i.condition with
  | some target, some condition =>
    let join : Join :=
      { base := view.name
        target
        relationship := i.relationship.getD .manyToOne
        kind := i.joinKind.getD .leftOuter
        condition := qualify view.name condition }
    if join.inverted.relationship.isFanout then [join] else [join,join.inverted]
  | _, _ => []

end Identifier

namespace JoinGraph

def explicitJoins (views : List View) : List Join :=
  views.flatMap fun v =>
    (v.identifiers.filter fun i => i.kind == .join).flatMap (Identifier.explicitJoins v)

def identifierJoins (views : List View) : List Join :=
  views.flatMap fun a => views.flatMap fun b =>
    if a.name == b.name then []
    else
      (a.identifiers.filter fun i => i.kind != .join).flatMap fun ia =>
        (b.identifiers.filter fun i => i.name == ia.name).filterMap fun ib => Identifier.join? a ia b ib

/-- The graph that views declare. Views are taken by name, and explicit joins come first. -/
def ofViews (views : List View) : JoinGraph :=
  let sorted := views.mergeSort fun a b => a.name ≤ b.name
  let bridges := NameSet.ofList ((sorted.filter View.hasCompositeKey).map View.name)
  ofJoins (sorted.map View.name) (explicitJoins sorted ++ identifierJoins sorted) bridges

end JoinGraph

end SemanticSql
