import SemanticSql.View

/-!
Topics: sets of views around a base view, with joins of their own and filters that always apply.
-/
namespace SemanticSql

structure TopicJoin where
  kind : JoinKind := .leftOuter
  relationship : Relationship := .manyToOne
  condition : String
  deriving DecidableEq, Repr

structure TopicView where
  join : Option TopicJoin := none
  overridesAccessFilters : Bool := false
  deriving DecidableEq, Repr

structure Topic where
  name : String
  modelName : Option String := none
  baseView : String
  views : Dict TopicView := []
  alwaysFilters : List FieldFilter := []
  accessFilters : List AccessFilter := []
  requiredGrants : List String := []
  deriving DecidableEq, Repr

namespace Topic

def withJoin (t : Topic) (view : String) (relationship : Relationship) (condition : String) : Topic :=
  { t with views := t.views.insert view { join := some { relationship, condition } } }

def containsView (t : Topic) (view : String) : Bool := view == t.baseView || t.views.contains view

def viewNames (t : Topic) : List String := t.baseView :: t.views.keys.filter fun v => v != t.baseView

/-- The base of a join is the first other view that its condition mentions, else the base view of the topic. -/
def joins (t : Topic) : List Join :=
  t.views.filterMap fun (name, view) =>
    view.join.map fun j =>
      let join : Join :=
        { base := "", target := name, relationship := j.relationship, kind := j.kind, condition := j.condition }
      { join with base := (join.mentionedViews.find? fun v => v != name).getD t.baseView }

def overridesAccessFilters (t : Topic) (view : String) : Bool :=
  match t.views.get? view with
  | some v => v.overridesAccessFilters
  | none => false

end Topic

end SemanticSql
