import SemanticSql.Filter.Bound

/-!
Filters on measures that are window functions. They can only be applied to the finished query, so they are taken out
of the filters on groups.
-/
namespace SemanticSql

def FieldUse.isWindowMeasure (u : FieldUse) : Bool := u.isMeasure && u.field.isWindowFunction

namespace Filter

def windowMeasure? (f : Filter) : Option FieldUse := f.fields.find? FieldUse.isWindowMeasure

def readsWindow (f : Filter) : Bool := f.fields.any FieldUse.isWindowMeasure

structure Lifted where
  kept : List Filter := []
  lifted : List Filter := []
  deriving Repr

def Lifted.append (a b : Lifted) : Lifted := ⟨a.kept ++ b.kept,a.lifted ++ b.lifted⟩

def liftOne (f : Filter) : Except Error Lifted :=
  match f.windowMeasure? with
  | none => .ok { kept := [f] }
  | some u =>
    match f with
    | .group conditions connective =>
      match (fieldsOf (conditions.filter isGroup)).find? FieldUse.isWindowMeasure with
      | some nested => .error (.query (.windowFilterNested nested.id))
      | none =>
        if connective = .or then .error (.query (.windowFilterOr u.id))
        else .ok {
          kept := conditions.filter fun c => !c.readsWindow
          lifted := conditions.filter readsWindow }
    | f => .ok { lifted := [f] }

def liftWindows : List Filter → Except Error Lifted
  | [] => .ok {}
  | f :: rest => do
    let first ← liftOne f
    let others ← liftWindows rest
    .ok (first.append others)

end Filter

end SemanticSql
