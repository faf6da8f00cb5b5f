import SemanticSql.Number.Binary64

/-!
Numbers written as text: an optional sign and digits for a whole number of 64 bits, and for a binary fraction
also a point and an exponent, with at least one digit on one side of the point.
-/
namespace SemanticSql.Numeral

def digitsValue (ds : List Char) : Nat := ds.foldl (fun n c => n * 10 + (c.toNat - 48)) 0

def digit? (base : Nat) (c : Char) : Option Nat :=
  let n :=
    if c.isDigit then c.toNat - 48
    else if 'a' ≤ c ∧ c ≤ 'z' then c.toNat - 87
    else if 'A' ≤ c ∧ c ≤ 'Z' then c.toNat - 55
    else base
  if n < base then some n else none

def digits? (base : Nat) (cs : List Char) : Option Nat :=
  if cs.isEmpty then none
  else cs.foldlM (fun n c => (digit? base c).map fun d => n * base + d) 0

def sign : List Char → Bool × List Char
  | '-' :: rest => (true, rest)
  | '+' :: rest => (false, rest)
  | cs => (false, cs)

def int64? (s : String) : Option Int :=
  let (negative, ds) := sign s.toList
  if ds.isEmpty || !ds.all Char.isDigit then none
  else
    let n := digitsValue ds
    let i : Int := if negative then -(Int.ofNat n) else Int.ofNat n
    if -Int.ofNat (twoTo 63) ≤ i ∧ i < Int.ofNat (twoTo 63) then some i else none

def exponent? : List Char → Option Int
  | [] => some 0
  | c :: rest =>
    if c = 'e' ∨ c = 'E' then
      let (negative, ds) := sign rest
      if ds.isEmpty || !ds.all Char.isDigit then none
      else
        let n := Int.ofNat (digitsValue ds)
        some (if negative then -n else n)
    else none

def binary64? (s : String) : Option Binary64 := do
  let (negative, cs) := sign s.toList
  let whole := cs.takeWhile Char.isDigit
  let (fraction, rest) := match cs.dropWhile Char.isDigit with
    | '.' :: rest => (rest.takeWhile Char.isDigit, rest.dropWhile Char.isDigit)
    | rest => ([], rest)
  guard !(whole.isEmpty && fraction.isEmpty)
  let exponent ← exponent? rest
  some (Binary64.ofDecimal negative (digitsValue (whole ++ fraction)) (exponent - Int.ofNat fraction.length))

end SemanticSql.Numeral
