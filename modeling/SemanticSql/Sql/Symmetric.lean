import SemanticSql.Error

/-!
Symmetric aggregates: sums, counts and averages over joined rows in which rows of one view may be repeated. Every row
has a key.
-/
namespace SemanticSql.Symmetric

def factor : Nat := 1000000

inductive RowTerm where
  | value
  | key
  | scaledValue
  | keyHash
  | plus (a b : RowTerm)
  deriving DecidableEq, Repr

inductive GroupTerm where
  | sumDistinct (t : RowTerm)
  | minus (a b : GroupTerm)
  | unscaled (t : GroupTerm)
  | countKeys
  | dividedBy (a b : GroupTerm)
  deriving DecidableEq, Repr

def sum : GroupTerm := .unscaled (.minus (.sumDistinct (.plus .scaledValue .keyHash)) (.sumDistinct .keyHash))

def count : GroupTerm := .countKeys

def average : GroupTerm := .dividedBy sum count

structure Arithmetic where
  whole : String
  real : String
  hash : String → String

def arithmetic? : Dialect → Option Arithmetic
  | .snowflake | .redshift | .postgres | .duckDb => some {
      whole := "DECIMAL(38,0)"
      real := "DOUBLE PRECISION"
      hash := fun key => s!"(TO_NUMBER(MD5({key}), 'XXXXXXXXXXXXXXXXXXXXXXXXXXXXXXXX') % 1.0e27)::NUMERIC(38, 0)" }
  | .bigQuery => some {
      whole := "FLOAT64"
      real := "FLOAT64"
      hash := fun key => s!"CAST(FARM_FINGERPRINT(CAST({key} AS STRING)) AS BIGNUMERIC)" }
  | _ => none

theorem arithmetic?_isSome (d : Dialect) : (arithmetic? d).isSome = d.hasSymmetricAggregates := by
  cases d <;> rfl

variable (a : Arithmetic) (value key : String)

def RowTerm.sql : RowTerm → String
  | .value => value
  | .key => key
  | .scaledValue => s!"(CAST(FLOOR(COALESCE({value}, 0) * ({factor} * 1.0)) AS {a.whole}))"
  | .keyHash => a.hash key
  | .plus s t => s.sql ++ " + " ++ t.sql

def GroupTerm.sql : GroupTerm → String
  | .sumDistinct t => "SUM(DISTINCT " ++ t.sql a value key ++ ")"
  | .minus s t => "(" ++ s.sql ++ " - " ++ t.sql ++ ")"
  | .unscaled t =>
    s!"COALESCE(CAST({t.sql} AS {a.real}) / CAST(({factor}*1.0) AS {a.real}), 0)"
  | .countKeys => s!"NULLIF(COUNT(DISTINCT CASE WHEN {value} IS NOT NULL THEN {key} ELSE NULL END),0)"
  | .dividedBy s t => "(" ++ s.sql ++ " / " ++ t.sql ++ ")"

/-- A term in a dialect. Only sums need more than every dialect has. -/
def render (d : Dialect) (t : GroupTerm) (value key : String) : Except Error String :=
  match arithmetic? d with
  | some a => .ok (t.sql a value key)
  | none => .error (.query (.symmetricUnsupported d))

end SemanticSql.Symmetric
