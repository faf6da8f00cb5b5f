import SemanticSql.Session

/-!
What a field is made of: the views that have to be joined for it, and the measures that a formula combines.
-/
namespace SemanticSql.Session

variable (s : Session)

def unionOfViews (views : FieldUse → Except Error NameSet) (start : NameSet) (uses : List FieldUse) :
    Except Error NameSet :=
  uses.foldlM (fun all u => do .ok (NameSet.union all (← views u))) start

def requiredViewsFrom : Nat → List String → FieldUse → Except Error NameSet
  | 0, stack, u => .error (cycleError stack u.id)
  | n + 1, stack, u =>
    if u.field.isWindowDimension then .ok [u.view.name]
    else if stack.contains u.id then .error (cycleError stack u.id)
    else do
      let references ← s.referencedFields u
      unionOfViews (requiredViewsFrom n (u.id :: stack)) [u.view.name]
        (references.filter fun r => !r.sameField u)

def requiredViews (u : FieldUse) : Except Error NameSet := s.requiredViewsFrom s.fuel [] u

def windowViews (u : FieldUse) : Except Error NameSet := do
  let references ← s.referencedFields u
  unionOfViews
    (fun r =>
      if r.field.isWindowDimension then .error (.query (.nestedWindow u.id r.id)) else s.requiredViews r)
    [u.view.name] references

def addUse (uses : List FieldUse) (u : FieldUse) : List FieldUse :=
  if uses.any fun v => v.same u then uses else uses ++ [u]

def addUses (uses more : List FieldUse) : List FieldUse := more.foldl addUse uses

def measureLeavesFrom : Nat → List String → FieldUse → Except Error (List FieldUse)
  | 0, stack, u => .error (cycleError stack u.id)
  | n + 1, stack, u =>
    if !u.field.isFormula then .ok [u]
    else if stack.contains u.id then .error (cycleError stack u.id)
    else do
      let references ← s.referencedFields u
      references.foldlM
        (fun leaves r => do .ok (addUses leaves (← measureLeavesFrom n (u.id :: stack) r))) []

def measureLeaves (u : FieldUse) : Except Error (List FieldUse) := s.measureLeavesFrom s.fuel [] u

end SemanticSql.Session
