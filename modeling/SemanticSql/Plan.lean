import SemanticSql.Expansion.Leaves
import SemanticSql.Filter.Binding
import SemanticSql.JoinPlan

/-!
Plans: the fields and filters of one query, bound to a project. A plan decides which views are joined and
whether rows are grouped.
-/
namespace SemanticSql

structure SortField where
  u : FieldUse
  descending : Bool
  deriving Repr

structure Plan where
  metrics : List FieldUse := []
  dimensions : List FieldUse := []
  conditions : List Filter := []
  having : List Filter := []
  order : List SortField := []
  limit : Option Nat := none
  tables : Tables := []
  forceGroups : Bool := false
  raw : Bool := false
  deriving Repr

def Session.viewsOf (s : Session) (start : NameSet) (uses : List FieldUse) : Except Error NameSet :=
  Session.unionOfViews s.requiredViews start uses

def checkNames (seen : List String) : List FieldUse → Except Error Unit
  | [] => .ok ()
  | u :: rest =>
    if seen.contains u.column then .error (.query (.ambiguousAlias u.column u.id))
    else checkNames (u.column :: seen) rest

namespace Plan

/-- A raw plan, or one that asks for the primary key of the view of its first metric. -/
def isUngrouped (p : Plan) : Bool :=
  p.raw ||
  !p.forceGroups &&
    match p.metrics.head? with
    | none => false
    | some first =>
      p.dimensions.any fun d => d.field.primaryKey && d.grain.isNone && d.view.name == first.view.name

def fields (p : Plan) : List FieldUse :=
  p.metrics ++ p.dimensions ++ Filter.fieldsOf p.conditions ++ Filter.fieldsOf p.having ++ p.order.map SortField.u

def requiredViews (s : Session) (p : Plan) : Except Error NameSet := s.viewsOf [] p.fields

def preferredViews (p : Plan) : List String :=
  (p.metrics.head?.toList ++ p.dimensions.head?.toList).map fun u => u.view.name

def joinPlan (s : Session) (topic : Option Topic) (p : Plan) : Except Error JoinPlan := do
  let required ← p.requiredViews s
  if required.isEmpty then .error (.query .noFields)
  else JoinPlan.build s.project required p.preferredViews topic

end Plan

end SemanticSql
