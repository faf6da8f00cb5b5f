import SemanticSql.Number.Numeral
import SemanticSql.Text.Cut
import SemanticSql.Value

/-!
What a plain YAML scalar stands for: null, a truth value, a whole number, a binary fraction, or else a text.
-/
namespace SemanticSql.Yaml

def isNullWord (s : String) : Bool := s = "" || s = "~" || s = "null" || s = "Null" || s = "NULL"

def truth? (s : String) : Option Bool :=
  if s = "true" ∨ s = "True" ∨ s = "TRUE" then some true
  else if s = "false" ∨ s = "False" ∨ s = "FALSE" then some false
  else none

def isZeroLed (cs : List Char) : Bool :=
  match (Numeral.sign cs).2 with
  | '0' :: c :: rest => (c :: rest).all Char.isDigit
  | _ => false

def magnitude? : List Char → Option Nat
  | '0' :: 'x' :: rest => Numeral.digits? 16 rest
  | '0' :: 'o' :: rest => Numeral.digits? 8 rest
  | '0' :: 'b' :: rest => Numeral.digits? 2 rest
  | cs => if isZeroLed cs then none else Numeral.digits? 10 cs

def whole? : List Char → Option Int
  | '-' :: rest => (magnitude? rest).map fun n => -(Int.ofNat n)
  | '+' :: rest => (magnitude? rest).map Int.ofNat
  | cs => (magnitude? cs).map Int.ofNat

def fraction? (s : String) : Option Binary64 :=
  let bare := match s.toList with
    | '+' :: rest => String.ofList rest
    | _ => s
  if bare = ".inf" ∨ bare = ".Inf" ∨ bare = ".INF" then some (.infinity false)
  else if s = "-.inf" ∨ s = "-.Inf" ∨ s = "-.INF" then some (.infinity true)
  else if s = ".nan" ∨ s = ".NaN" ∨ s = ".NAN" then some .nan
  else if bare.toList.head? = some '+' ∨ (bare ≠ s ∧ bare.toList.head? = some '-') then none
  else
    match Numeral.binary64? bare with
    | some x => if x.isFinite then some x else none
    | none => none

/-- The value of a plain scalar. Whole numbers beyond 64 bits that fit 128 bits are refused; larger ones are read as
fractions. -/
def plainValue? (s : String) : Option Value :=
  if isNullWord s then some .null
  else
    match truth? s with
    | some b => some (.bool b)
    | none =>
      let inexact := fun (_ : Unit) =>
        if isZeroLed s.toList then Value.str s
        else match fraction? s with
          | some x => .float x
          | none => .str s
      match whole? s.toList with
      | some i =>
        if -Int.ofNat (twoTo 63) ≤ i ∧ i < Int.ofNat (twoTo 64) then some (.int i)
        else if -Int.ofNat (twoTo 127) ≤ i ∧ i < Int.ofNat (twoTo 128) then none
        else some (inexact ())
      | none => some (inexact ())

end SemanticSql.Yaml
