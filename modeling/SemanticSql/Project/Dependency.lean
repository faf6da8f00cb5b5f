import SemanticSql.Project

/-!
Which fields the SQL of a field refers to, and whether these references run in a circle.
-/
namespace SemanticSql

namespace Field

def templates (f : Field) : List String :=
  f.sql.toList ++ f.sqlStart.toList ++ f.sqlEnd.toList ++
  match f.cases with
  | some table => table.branches.map CaseBranch.sql
  | none => []

def referredNames (f : Field) : List String :=
  ((f.templates.flatMap Reference.names).filter fun name => name != Reference.table) ++ f.measure.toList

end Field

namespace Dependency

/-- The field that a name means inside a view. A qualified name means the last view of that name. -/
def resolve? (views : List View) (owner : View) (name : String) : Option String := do
  let (view, rest) ← match Text.cut? '.' name with
    | some (viewName, rest) => (views.reverse.find? fun v => v.name == viewName).map fun v => (v, rest)
    | none => some (owner, name)
  let (field, _) ← view.field? rest
  some (view.name ++ "." ++ field.name)

def ofField (views : List View) (owner : View) (field : Field) : NameSet :=
  NameSet.ofList (field.referredNames.filterMap (resolve? views owner))

def declared (views : List View) : List (String × NameSet) :=
  views.flatMap fun v => v.fields.map fun f => (v.name ++ "." ++ f.name, ofField views v f)

/-- What every field refers to; of a field that is declared twice the last declaration counts. -/
def all (views : List View) : Dict NameSet := Dict.ofList (declared views)

def settleStep (references : Dict NameSet) (settled : List String) : List String :=
  (references.filter fun e => e.2.all settled.contains).map Prod.fst

def settle (references : Dict NameSet) : Nat → List String → List String
  | 0, settled => settled
  | n + 1, settled =>
    let next := settleStep references settled
    if next.length = settled.length then settled else settle references n next

def cyclic? (views : List View) : Option String :=
  let references := all views
  let settled := settle references references.length []
  ((declared views).map Prod.fst).find? fun id => !settled.contains id

end Dependency

end SemanticSql
