import SemanticSql.Number.Decimal

/-!
Tiers: the ranges between bounds, and the label of the first range that holds a number.
-/
namespace SemanticSql

inductive Tier where
  | below (bound : Binary64)
  | between (low high : Binary64)
  | atLeast (bound : Binary64)
  deriving DecidableEq, Repr

namespace Tier

def inner : List Binary64 → List Tier
  | low :: high :: rest => between low high :: inner (high :: rest)
  | _ => []

def ofBounds (bounds : List Binary64) : List Tier :=
  match bounds.head?, bounds.getLast? with
  | some first, some last => below first :: inner bounds ++ [atLeast last]
  | _, _ => []

def condition (sql : String) : Tier → String
  | below b => s!"{sql} < {b.boundText}"
  | between low high => s!"{sql} >= {low.boundText} AND {sql} < {high.boundText}"
  | atLeast b => s!"{sql} >= {b.boundText}"

def label : Tier → String
  | below b => s!"Below {b.boundText}"
  | between low high => s!"[{low.boundText},{high.boundText})"
  | atLeast b => s!"[{b.boundText},inf)"

def branch (sql : String) (t : Tier) : String := s!"WHEN {t.condition sql} THEN '{t.label}'"

def sql (bounds : List Binary64) (sql : String) : String :=
  match ofBounds bounds with
  | [] => sql
  | tiers => "CASE " ++ " ".intercalate (tiers.map (branch sql)) ++ " ELSE 'Unknown' END"

end Tier

end SemanticSql
