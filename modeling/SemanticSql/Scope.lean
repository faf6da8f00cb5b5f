import SemanticSql.Plan

/-! A scope is a session with the model and the topic that a request is answered in. -/
namespace SemanticSql

structure Scope extends Session where
  model : Option Model := none
  topic : Option Topic := none
  deriving Repr

def AccessGrant.admits (g : AccessGrant) (attributes : Dict String) : Bool :=
  match attributes.get? g.userAttribute with
  | some text => (Filter.attributeValues text).any fun v => g.allowed.contains v
  | none => false

def checkGrants (attributes : Dict String) (model : Option Model) (kind : ObjectKind) (name : String) :
    List String → Except Error Unit
  | [] => .ok ()
  | grant :: rest =>
    match model.bind fun m => m.grant? grant with
    | none => .error (.query (.undefinedGrant grant kind name))
    | some g =>
      if g.admits attributes then checkGrants attributes model kind name rest
      else .error (.access (.denied kind name))

namespace Scope

variable (s : Scope)

def requireGrants (model : Option Model) (kind : ObjectKind) (name : String) (grants : List String) :
    Except Error Unit :=
  if s.context.userAttributes.isEmpty then .ok ()
  else checkGrants s.context.userAttributes model kind name grants

def checkScope : Except Error Unit := do
  match s.model with
  | some m => s.requireGrants (some m) .model m.name m.requiredGrants
  | none => .ok ()
  match s.topic with
  | some t => s.requireGrants s.model .topic t.name t.requiredGrants
  | none => .ok ()

def checkAccess (u : FieldUse) : Except Error Unit := do
  let model := s.project.modelOf? u.view <|> s.model
  match model with
  | some m => s.requireGrants model .model m.name m.requiredGrants
  | none => .ok ()
  s.requireGrants model .view u.view.name u.view.requiredGrants
  s.requireGrants model .field u.id u.field.requiredGrants

def field (name : String) : Except Error FieldUse := do
  let u ← s.project.field name
  s.checkAccess u
  .ok u

def fields (names : List String) : Except Error (List FieldUse) := names.mapM s.field

def found (names : List String) : List FieldUse := names.filterMap fun name => (s.project.field name).toOption

def sortField (e : OrderEntry) : Except Error SortField := do .ok ⟨← s.field e.field,e.descending⟩

def order (r : Request) : Except Error (List SortField) :=
  match r.orderBy with
  | none => .ok []
  | some orderBy => do (← orderBy.entries).mapM s.sortField

end Scope

end SemanticSql
