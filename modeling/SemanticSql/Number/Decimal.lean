import SemanticSql.Number.Binary64

/-! Decimal text of numbers. `Shortest` holds the fewest decimal digits that read back as a given finite number, the
nearest such digits if there are several; the layouts say where the point goes and when an exponent is written. -/
namespace SemanticSql

/-- `d.ddd * 10 ^ exponent`, the digits given as one natural number without trailing zeros. -/
structure Shortest where
  digits : Nat
  exponent : Int
  deriving DecidableEq, Repr

namespace Shortest

def powerLe (k : Int) (n d : Nat) : Bool :=
  if 0 ≤ k then tenTo k.toNat * d ≤ n else d ≤ n * tenTo (-k).toNat

def magnitude (n d : Nat) : Int :=
  let guess : Int := (Int.ofNat n.log2 - Int.ofNat d.log2) * 30103 / 100000
  if powerLe (guess + 2) n d then guess + 2
  else if powerLe (guess + 1) n d then guess + 1
  else if powerLe guess n d then guess
  else if powerLe (guess - 1) n d then guess - 1
  else guess - 2

/-- The reals that round to `mantissa * 2 ^ exponent`, in units of `2 ^ (exponent - 2)`: both ends, and whether they
belong. -/
def interval (mantissa : Nat) (exponent : Int) : Nat × Nat × Bool :=
  let below := if mantissa = twoTo 52 ∧ exponent ≠ Binary64.leastExponent then 1 else 2
  (4 * mantissa - below, 4 * mantissa + 2, mantissa % 2 = 0)

/-- Whether `c * 10 ^ s` lies in the interval, whose unit is the fraction `u.1 / u.2`. -/
def hits (span : Nat × Nat × Bool) (u : Nat × Nat) (c : Nat) (s : Int) : Bool :=
  let x := if 0 ≤ s then (c * tenTo s.toNat, 1) else (c, tenTo (-s).toNat)
  let left := x.1 * u.2
  let low := span.1 * u.1 * x.2
  let high := span.2.1 * u.1 * x.2
  if span.2.2 then low ≤ left && left ≤ high else low < left && left < high

def neighbours (n d : Nat) (s : Int) : Nat × Nat :=
  let a := if 0 ≤ s then (n, d * tenTo s.toNat) else (n * tenTo (-s).toNat, d)
  let c := a.1 / a.2
  let r := a.1 % a.2
  if 2 * r < a.2 ∨ (2 * r = a.2 ∧ c % 2 = 0) then (c, c + 1) else (c + 1, c)

/-- Tries grids of `count` digits and more; `left` bounds the number of tries. -/
def search (span : Nat × Nat × Bool) (u v : Nat × Nat) (e : Int) : Nat → Nat → Nat × Int
  | 0, count => ((neighbours v.1 v.2 (e - count + 1)).1, e - count + 1)
  | left + 1, count =>
    let s : Int := e - count + 1
    let c := neighbours v.1 v.2 s
    if hits span u c.1 s then (c.1, s)
    else if hits span u c.2 s then (c.2, s)
    else search span u v e left (count + 1)

def dropZeros : Nat → Nat → Int → Nat × Int
  | 0, c, s => (c, s)
  | left + 1, c, s => if c ≠ 0 ∧ c % 10 = 0 then dropZeros left (c / 10) (s + 1) else (c, s)

def of (mantissa : Nat) (exponent : Int) : Shortest :=
  let v := Binary64.ratio mantissa exponent
  let u := Binary64.ratio 1 (exponent - 2)
  let e := magnitude v.1 v.2
  let found := search (interval mantissa exponent) u v e 17 1
  let bare := dropZeros 20 found.1 found.2
  ⟨bare.1,bare.2 + Int.ofNat (toString bare.1).length - 1⟩

end Shortest

namespace Binary64

def zeros (n : Nat) : String := String.ofList (List.replicate n '0')

def positional (s : Shortest) (whole : String) : String :=
  let ds := (toString s.digits).toList
  let n := ds.length
  if Int.ofNat n ≤ s.exponent + 1 then
    String.ofList ds ++ zeros (s.exponent + 1 - Int.ofNat n).toNat ++ whole
  else if 0 ≤ s.exponent then
    let k := s.exponent.toNat + 1
    String.ofList (ds.take k) ++ "." ++ String.ofList (ds.drop k)
  else "0." ++ zeros (-s.exponent - 1).toNat ++ String.ofList ds

/-- A number as a value: positional from `0.00001` up to sixteen digits, always with a point; beyond, one
digit before the point and a signed exponent. -/
def valueText : Binary64 → String
  | finite negative m q =>
    let sign := if negative then "-" else ""
    if m = 0 then sign ++ "0.0"
    else
      let s := Shortest.of m q
      if -5 ≤ s.exponent ∧ s.exponent ≤ 15 then sign ++ positional s ".0"
      else
        let ds := (toString s.digits).toList
        let lead := String.ofList (ds.take 1)
        let tail := if ds.length = 1 then "" else "." ++ String.ofList (ds.drop 1)
        let exponent := if s.exponent < 0 then toString s.exponent else "+" ++ toString s.exponent
        sign ++ lead ++ tail ++ "e" ++ exponent
  | infinity _ => "null"
  | nan => "null"

def plainText : Binary64 → String
  | finite negative m q =>
    let sign := if negative then "-" else ""
    if m = 0 then sign ++ "0" else sign ++ positional (Shortest.of m q) ""
  | infinity negative => if negative then "-inf" else "inf"
  | nan => "NaN"

def whole? : Binary64 → Option Int
  | finite negative m q =>
    let r := ratio m q
    if r.1 % r.2 = 0 then
      let n := Int.ofNat (r.1 / r.2)
      some (if negative then -n else n)
    else none
  | _ => none

/-- A bound of a tier: whole bounds below `10 ^ 15` are written as integers. -/
def boundText (x : Binary64) : String :=
  match x.whole? with
  | some n => if n.natAbs < tenTo 15 then toString n else x.plainText
  | none => x.plainText

end Binary64

end SemanticSql
