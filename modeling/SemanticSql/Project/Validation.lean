import SemanticSql.Project.Dependency

/-!
Checks of a project that need no request.
-/
namespace SemanticSql

namespace Project

def firstCause {α : Type} (test : α → Option ConfigError) (items : List α) : Except Error Unit :=
  match items.findSome? test with
  | some cause => .error (.config cause)
  | none => .ok ()

def withEarlier {α : Type} (earlier : List α) : List α → List (List α × α)
  | [] => []
  | a :: rest => (earlier, a) :: withEarlier (a :: earlier) rest

def fieldCause (view : View) (earlier : List Field) (field : Field) : Option ConfigError :=
  if (Text.trim field.name).isEmpty then some (.namelessField view.name field.isMeasure)
  else if earlier.any fun f => f.name == field.name then some (.duplicateField field.name view.name)
  else none

def viewCause (p : Project) (earlier : List View) (view : View) : Option ConfigError :=
  if earlier.any fun v => v.name == view.name then some (.duplicateView view.name)
  else if view.tableName.isNone && view.derivedSql.isNone then some (.viewWithoutTable view.name)
  else
    match (withEarlier [] view.fields).findSome? fun (earlier, f) => fieldCause view earlier f with
    | some cause => some cause
    | none =>
      match view.modelName with
      | some model => if (p.model? model).isNone then some (.unknownModel view.name model) else none
      | none => none

def meansDimension (p : Project) (view : View) (name : String) : Bool :=
  match p.fieldFrom view name with
  | .ok use => !use.isMeasure
  | .error _ => false

def nonAdditiveCause (p : Project) (view : View) (field : Field) : Option ConfigError :=
  let id := view.name ++ "." ++ field.name
  match field.nonAdditive with
  | none => none
  | some window =>
    if !field.isMeasure then some (.nonAdditiveDimension id)
    else
      ((window.name :: window.groupings).find? fun name => !p.meansDimension view name).map
        (.nonAdditiveReference id)

def topicCause (p : Project) (topic : Topic) : Option ConfigError :=
  let known := fun name => p.views.any fun v => v.name == name
  if !known topic.baseView then some (.topicBase topic.name topic.baseView)
  else (topic.views.keys.find? fun v => !known v).map (.topicView topic.name)

def validate (p : Project) : Except Error Unit := do
  firstCause (fun (earlier, view) => p.viewCause earlier view) (withEarlier [] p.views)
  firstCause (fun (view, field) => p.nonAdditiveCause view field) (p.views.flatMap fun v => v.fields.map (v, ·))
  firstCause p.topicCause p.topics
  match Dependency.cyclic? p.views with
  | some id => .error (.config (.cycle id))
  | none => .ok ()

def ofValid (d : Definitions) : Except Error Project := do
  let project := ofDefinitions d
  project.validate
  .ok project

end Project

end SemanticSql
