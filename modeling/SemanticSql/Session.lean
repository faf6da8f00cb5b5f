import SemanticSql.Context
import SemanticSql.Project
import SemanticSql.Template

/-! A session compiles requests against one project in one context. -/
namespace SemanticSql

structure Session where
  project : Project
  context : Context
  deriving Repr

structure KeptValue where
  measure : FieldUse
  dimension : FieldUse
  groupings : List FieldUse
  definition : NonAdditive
  table : String
  column : String
  deriving Repr

def FieldUse.groupingColumn (u : FieldUse) : String := u.view.name ++ "_" ++ u.column

def FieldUse.windowColumn (u : FieldUse) : String := u.view.name ++ "_" ++ u.field.name

namespace Session

variable (s : Session)

def render (template : String) : Except Error String := Template.render s.context.userAttributes template

def reference? (view : View) (token : String) : Option FieldUse := do
  let (view, name) ← match Text.cut? '.' token with
    | some (viewName, name) => (s.project.view? viewName).map fun v => (v, name)
    | none => some (view, token)
  let (field, grain) ← view.field? name
  some { view, field, grain }

def reference (view : View) (owner token : String) : Except Error FieldUse :=
  match s.reference? view token with
  | some u => .ok u
  | none => .error (.parse (.unknownReference token owner))

def keptValue (u : FieldUse) : Except Error (Option KeptValue) :=
  match u.field.nonAdditive with
  | none => .ok none
  | some definition => do
    let dimension ← s.project.fieldFrom u.view definition.name
    if dimension.isMeasure then .error (.model (.nonAdditiveMeasure definition.name u.id))
    else
      let groupings ← definition.groupings.mapM (s.project.fieldFrom u.view)
      .ok (some {
        measure := u, dimension, groupings, definition
        table := "cte_" ++ u.field.name ++ "_" ++ dimension.column
        column := u.view.name ++ "_" ++ definition.keep.name ++ "_" ++ dimension.column })

def templateReferences (u : FieldUse) (template : String) : Except Error (List FieldUse) := do
  let tokens := (Reference.names (← s.render template)).filter fun token => token != Reference.table
  tokens.mapM (s.reference u.view u.id)

def referencedFields (u : FieldUse) : Except Error (List FieldUse) := do
  let f := u.field
  let branches := match f.cases with
    | some table => table.branches.map CaseBranch.sql
    | none => []
  let templates := f.sql.toList ++ f.sqlStart.toList ++ f.sqlEnd.toList ++ f.distinctKey.toList ++ branches
  let inSql ← templates.mapM (s.templateReferences u)
  let inFilters ← f.filters.mapM fun filter => s.project.fieldFrom u.view filter.field
  let totalled ← f.measure.toList.mapM (s.project.fieldFrom u.view)
  let kept ← s.keptValue u
  let inWindow := match kept with
    | some k => k.dimension :: k.groupings
    | none => []
  .ok (inSql.flatten ++ inFilters ++ totalled ++ inWindow)

/-- The failure of a field that is needed while it is being expanded. -/
def cycleError (stack : List String) (id : String) : Error :=
  .model (.cycle id ((stack.reverse ++ [id]).dropWhile (· != id)))

def source (view : View) : Except Error String :=
  match view.tableName, view.derivedSql with
  | some table, _ => do .ok ((← s.render table) ++ " " ++ view.name)
  | none, some sql => do .ok ("(" ++ (← s.render sql) ++ ") " ++ view.name)
  | none, none => .error (.query (.viewWithoutTable view.name))

/-- Fuel for following references: a chain that passes no field twice is shorter. -/
def fuel : Nat := s.project.fieldCount + 1

end Session

end SemanticSql
