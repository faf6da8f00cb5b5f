import SemanticSql.Dict
import SemanticSql.Reference
import SemanticSql.Text.Cut

/-! Joins between two views. The relationship says how many rows match on either side; the condition is a template
whose qualified references name the views it needs. -/
namespace SemanticSql

inductive Relationship where
  | oneToOne | manyToOne | oneToMany | manyToMany
  deriving DecidableEq, Repr

namespace Relationship

def all : List Relationship := [oneToOne,manyToOne,oneToMany,manyToMany]

def name : Relationship → String
  | oneToOne => "one_to_one"
  | manyToOne => "many_to_one"
  | oneToMany => "one_to_many"
  | manyToMany => "many_to_many"

def ofName? (s : String) : Option Relationship := all.find? fun r => r.name == s

theorem ofName?_name (r : Relationship) : ofName? r.name = some r := by cases r <;> decide

def inverse : Relationship → Relationship
  | oneToOne => oneToOne
  | manyToOne => oneToMany
  | oneToMany => manyToOne
  | manyToMany => manyToMany

theorem inverse_inverse (r : Relationship) : r.inverse.inverse = r := by cases r <;> rfl

def isFanout : Relationship → Bool
  | oneToMany | manyToMany => true
  | _ => false

def weight : Relationship → Nat
  | oneToOne => 1
  | manyToOne => 2
  | oneToMany => 3
  | manyToMany => 4

end Relationship

inductive JoinKind where
  | leftOuter | inner | fullOuter | cross
  deriving DecidableEq, Repr

namespace JoinKind

def all : List JoinKind := [leftOuter,inner,fullOuter,cross]

def name : JoinKind → String
  | leftOuter => "left_outer"
  | inner => "inner"
  | fullOuter => "full_outer"
  | cross => "cross"

def ofName? (s : String) : Option JoinKind :=
  if s = "left" then some leftOuter
  else if s = "full" then some fullOuter
  else all.find? fun k => k.name == s

theorem ofName?_name (k : JoinKind) : ofName? k.name = some k := by cases k <;> decide

def keyword : JoinKind → String
  | leftOuter => "LEFT JOIN"
  | inner => "INNER JOIN"
  | fullOuter => "FULL OUTER JOIN"
  | cross => "CROSS JOIN"

end JoinKind

structure Join where
  base : String
  target : String
  relationship : Relationship
  kind : JoinKind := .leftOuter
  condition : String
  deriving DecidableEq, Repr

namespace Join

def inverted (j : Join) : Join := { j with base := j.target, target := j.base, relationship := j.relationship.inverse }

def mentionedViews (j : Join) : NameSet :=
  NameSet.ofList ((Reference.names j.condition).filterMap fun name =>
    (Text.cut? '.' name).map fun p => Text.trim p.1)

def dependencies (j : Join) : NameSet := j.mentionedViews.filter fun v => v != j.base && v != j.target

def weight (j : Join) : Nat := j.relationship.weight

end Join

end SemanticSql
