import SemanticSql.Error
import SemanticSql.JoinGraph.Declared
import SemanticSql.Settings

/-!
Projects: the definitions that requests are answered from, and the look-up of fields by name.
-/
namespace SemanticSql

structure FieldUse where
  view : View
  field : Field
  grain : Option Grain
  deriving Repr

namespace FieldUse

def id (u : FieldUse) : String := u.view.name ++ "." ++ u.field.name

def column (u : FieldUse) : String := u.field.aliasAt u.grain

def qualifiedName (u : FieldUse) : String := u.view.name ++ "." ++ u.column

def atGrain (u : FieldUse) (grain : Option Grain) : FieldUse := { u with grain }

def isMeasure (u : FieldUse) : Bool := u.field.isMeasure

def sameField (a b : FieldUse) : Bool := a.view.name == b.view.name && a.field.name == b.field.name

def same (a b : FieldUse) : Bool := a.sameField b && a.grain == b.grain

end FieldUse

structure Project where
  models : List Model := []
  views : List View := []
  topics : List Topic := []
  connections : List Connection := []
  settings : Settings := {}
  userAttributes : Dict String := []
  graph : JoinGraph
  deriving Repr

def Error.notFound (kind : ObjectKind) (name : String) : Error := .access (.notFound kind name)

namespace Project

def ofDefinitions (d : Definitions) : Project where
  models := d.models
  views := d.views
  topics := d.topics
  connections := d.connections
  settings := d.settings.getD {}
  graph := .ofViews d.views

def model? (p : Project) (name : String) : Option Model := p.models.find? fun m => m.name == name

def view? (p : Project) (name : String) : Option View := p.views.find? fun v => v.name == name

def view (p : Project) (name : String) : Except Error View :=
  match p.view? name with
  | some view => .ok view
  | none => .error (.notFound .view name)

def topic (p : Project) (name : String) : Except Error Topic :=
  match p.topics.find? fun t => t.name == name with
  | some topic => .ok topic
  | none => .error (.notFound .topic name)

def modelOf? (p : Project) (view : View) : Option Model :=
  match view.modelName, p.models with
  | some name, _ => p.model? name
  | none, [model] => some model
  | none, _ => none

def connectionDialect? (p : Project) (name : String) : Option Dialect :=
  (p.connections.find? fun c => c.name == name).map Connection.dialect

def fieldIn (_ : Project) (view : View) (name : String) : Except Error FieldUse :=
  match view.field? name with
  | some (field, grain) => .ok { view, field, grain }
  | none => .error (.notFound .field (view.name ++ "." ++ name))

/-- The field of a name in any letter case: qualified by its view, or bare if only one view has it. -/
def field (p : Project) (name : String) : Except Error FieldUse :=
  let name := Text.lower (Text.trim name)
  match Text.cut? '.' name with
  | some (viewName, fieldName) =>
    match p.view? viewName with
    | some view => p.fieldIn view fieldName
    | none => .error (.notFound .field name)
  | none =>
    let found := p.views.filterMap fun view => (view.field? name).map fun (field, grain) => FieldUse.mk view field grain
    match found with
    | [] => .error (.notFound .field name)
    | [use] => .ok use
    | _ => .error (.query (.ambiguousField name (found.map FieldUse.id)))

def hasField (p : Project) (name : String) : Bool :=
  match p.field name with
  | .ok _ => true
  | .error _ => false

def fieldFrom (p : Project) (view : View) (name : String) : Except Error FieldUse :=
  if name.toList.contains '.' then p.field name else p.fieldIn view name

def modelsFor (p : Project) (model : Option Model) : List Model :=
  match model with
  | some model => [model]
  | none => p.models

def mapping? (p : Project) (model : Option Model) (name : String) : Option Mapping :=
  (p.modelsFor model).findSome? fun m => m.mappings.get? name

def sameId (a b : String) : Bool := a.toList.map Char.toLower == b.toList.map Char.toLower

def mappingOf? (p : Project) (model : Option Model) (id : String) : Option (String × Mapping) :=
  (p.modelsFor model).findSome? fun m => m.mappings.find? fun e => e.2.fields.any (sameId id)

def canonDate (p : Project) (use : FieldUse) : Except Error (Option FieldUse) :=
  match use.field.canonDate <|> use.view.defaultDate with
  | none => .ok none
  | some name => do
    let date ← p.fieldFrom use.view name
    if date.field.isGroup then .ok (some date) else .error (.model (.canonDate name use.id))

/-- The number of fields; no chain of references without repetition is longer. -/
def fieldCount (p : Project) : Nat := (p.views.map fun v => v.fields.length).foldl (· + ·) 0

end Project

end SemanticSql
