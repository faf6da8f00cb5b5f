import SemanticSql.Proofs.OuterJoins

/-! The rows of a select. A database gives the text of an expression a value and the text of a condition a truth in
every joined row. -/
namespace SemanticSql

structure Engine (V : Type) where
  value : String → JoinedRow (ResultRow V) → Option V
  holds : String → JoinedRow (ResultRow V) → Bool

abbrev Contents (V : Type) := String → List (ResultRow V)

def bothKnown {V : Type} (related : V → V → Bool) (x y : Option V) : Bool := x.any fun a => y.any (related a)

theorem bothKnownIff {V : Type} {related : V → V → Bool} {x y : Option V} :
    bothKnown related x y ↔ ∃ a b, x = some a ∧ y = some b ∧ related a b := by
  simp [bothKnown,Option.any_eq_true]

def TableJoin.inner? : TableJoin → Option (String × String)
  | .on keyword table condition => if keyword = "JOIN" then some (table, condition) else none
  | .cross _ => none

namespace SelectItem

def sqlAs? (name : String) : SelectItem → Option String
  | column sql shown => if shown = name then some sql else none
  | _ => none

def table? (source : String) : SelectItem → Option String
  | column _ _ => none
  | allOf table => some table
  | all => some source

end SelectItem

def Select.groupSql (s : Select) (d : Dialect) (entry : String) : String :=
  if d.groupsByAlias then (s.items.findSome? (SelectItem.sqlAs? entry)).getD entry else entry

namespace Engine
variable {V : Type} (db : Engine V)

def joinRows (content : Contents V) (all : List (JoinedRow (ResultRow V))) (join : String × String) :
    List (JoinedRow (ResultRow V)) :=
  all.flatMap fun r => ((content join.1).map fun row => Function.update r join.1 (some row)).filter (db.holds join.2)

def passes (s : Select) (r : JoinedRow (ResultRow V)) : Bool :=
  s.conditions.isEmpty || db.holds (" AND ".intercalate s.conditions) r

def kept? (content : Contents V) (s : Select) : Option (List (JoinedRow (ResultRow V))) :=
  (s.joins.mapM TableJoin.inner?).map fun joins =>
    (joins.foldl (db.joinRows content) ((content s.source).map (Results.alone s.source))).filter (db.passes s)

def shown (s : Select) (r : JoinedRow (ResultRow V)) : ResultRow V := fun name =>
  (s.items.findSome? (SelectItem.sqlAs? name)).elim
    ((s.items.filterMap (SelectItem.table? s.source)).findSome? fun table => (r table).bind fun row => row name)
    fun sql => db.value sql r

def define? : Contents V → List (String × Select) → Option (Contents V)
  | content, [] => some content
  | content, (name, s) :: rest =>
    (db.kept? content s).bind fun rows => define? (Function.update content name (rows.map (db.shown s))) rest

def groupKey (d : Dialect) (s : Select) (r : JoinedRow (ResultRow V)) : List (Option V) :=
  s.groups.map fun entry => db.value (s.groupSql d entry) r

def group? [DecidableEq V] (d : Dialect) (content : Contents V) (s : Select) (key : List (Option V)) :
    Option (List (JoinedRow (ResultRow V))) :=
  (db.kept? content s).map fun rows => rows.filter fun r => db.groupKey d s r = key

variable {db} {content : Contents V} {s : Select}

theorem keptAlone (single : s.joins = []) :
    db.kept? content s = some (((content s.source).map (Results.alone s.source)).filter (db.passes s)) := by
  simp [kept?,single]

theorem keptJoined {table condition : String} (one : s.joins = [.on "JOIN" table condition]) :
    db.kept? content s = some ((content s.source).flatMap fun x =>
      (((content table).map fun y => Function.update (Results.alone s.source x) table (some y)).filter
        (db.holds condition)).filter (db.passes s)) := by
  simp [kept?,one,TableJoin.inner?,joinRows,List.filter_flatMap,List.flatMap_map]

end Engine

end SemanticSql
