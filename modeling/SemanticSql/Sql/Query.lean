import SemanticSql.Dialect

/-!
Queries as data: select lists, joins, conditions, and the tables that are computed first. A query is turned
into text once, at the end.
-/
namespace SemanticSql

inductive SelectItem where
  | column (sql name : String)
  | allOf (table : String)
  | all
  deriving DecidableEq, Repr

namespace SelectItem

def sql : SelectItem → String
  | column sql name => sql ++ " as " ++ name
  | allOf table => table ++ ".*"
  | all => "*"

def name? : SelectItem → Option String
  | column _ name => some name
  | _ => none

end SelectItem

inductive TableJoin where
  | on (keyword table condition : String)
  | cross (table : String)
  deriving DecidableEq, Repr

def TableJoin.sql : TableJoin → String
  | on keyword table condition => keyword ++ " " ++ table ++ " ON " ++ condition
  | cross table => "CROSS JOIN " ++ table

structure Select where
  items : List SelectItem
  source : String
  joins : List TableJoin := []
  conditions : List String := []
  groups : List String := []
  having : List String := []
  deriving DecidableEq, Repr

namespace Select

def clause (keyword separator : String) (entries : List String) : String :=
  if entries.isEmpty then "" else " " ++ keyword ++ " " ++ separator.intercalate entries

def keyword (d : Dialect) (limit : Option Nat) : String :=
  match limit with
  | some n => if d.usesTop then "SELECT TOP " ++ toString n ++ " " else "SELECT "
  | none => "SELECT "

def sql (d : Dialect) (limit : Option Nat) (s : Select) : String :=
  keyword d limit ++ ", ".intercalate (s.items.map SelectItem.sql) ++ " FROM " ++ s.source ++
  String.join (s.joins.map fun j => " " ++ j.sql) ++
  clause "WHERE" " AND " s.conditions ++ clause "GROUP BY" ", " s.groups ++ clause "HAVING" " AND " s.having

def names (s : Select) : List String := s.items.filterMap SelectItem.name?

end Select

structure SortKey where
  key : String
  descending : Bool
  deriving DecidableEq, Repr

def SortKey.sql (d : Dialect) (k : SortKey) : String :=
  k.key ++ (if k.descending then " DESC" else " ASC") ++ (if d.sortsNullsLast then " NULLS LAST" else "")

inductive QueryBody where
  | select (s : Select)
  | union (parts : List Select)
  | text (sql : String)
  deriving DecidableEq, Repr

def QueryBody.sql (d : Dialect) (limit : Option Nat) : QueryBody → String
  | select s => s.sql d limit
  | union parts => " UNION ALL ".intercalate (parts.map (Select.sql d none))
  | text sql => sql

inductive Query where
  | mk (tables : List (String × Query)) (body : QueryBody) (order : List SortKey) (limit : Option Nat)
  deriving Repr

namespace Query

def ofSelect (s : Select) : Query := mk [] (.select s) [] none

def ofText (sql : String) : Query := mk [] (.text sql) [] none

def tables : Query → List (String × Query)
  | mk tables _ _ _ => tables

def body : Query → QueryBody
  | mk _ body _ _ => body

def limitSql (d : Dialect) (limit : Option Nat) : String :=
  match limit with
  | some n => if d.usesTop then "" else " LIMIT " ++ toString n
  | none => ""

def definitions (entries : List String) : String :=
  if entries.isEmpty then "" else "WITH " ++ ", ".intercalate entries ++ " "

mutual

def sql (d : Dialect) : Query → String
  | mk tables body order limit =>
    definitions (tablesSql d tables) ++ body.sql d limit ++
    Select.clause "ORDER BY" ", " (order.map (SortKey.sql d)) ++ limitSql d limit

def tablesSql (d : Dialect) : List (String × Query) → List String
  | [] => []
  | (name, query) :: rest => (name ++ " AS (" ++ query.sql d ++ ")") :: tablesSql d rest

end

def statement (d : Dialect) (q : Query) : String := q.sql d ++ if d.endsWithSemicolon then ";" else ""

end Query

end SemanticSql
