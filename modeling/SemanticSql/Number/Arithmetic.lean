import SemanticSql.Number.Decimal

/-!
Sums, products, quotients and the order of binary fractions. A result is the exact one, rounded once.
-/
namespace SemanticSql.Binary64

def isNegative : Binary64 → Bool
  | finite negative .. => negative
  | infinity negative => negative
  | nan => false

def isZero : Binary64 → Bool
  | finite _ m _ => m = 0
  | _ => false

def signedRatio (negative : Bool) (m : Nat) (q : Int) : Int × Nat :=
  let r := ratio m q
  (if negative then -(Int.ofNat r.1) else Int.ofNat r.1, r.2)

def add : Binary64 → Binary64 → Binary64
  | finite s m q, finite t n r =>
    let a := signedRatio s m q
    let b := signedRatio t n r
    let sum := a.1 * Int.ofNat b.2 + b.1 * Int.ofNat a.2
    ofRatio (if sum = 0 then s && t else sum < 0) sum.natAbs (a.2 * b.2)
  | infinity s, infinity t => if s = t then infinity s else nan
  | nan, _ => nan
  | _, nan => nan
  | infinity s, finite .. => infinity s
  | finite .., infinity t => infinity t

def subtract (x y : Binary64) : Binary64 := add x y.neg

def multiply : Binary64 → Binary64 → Binary64
  | finite s m q, finite t n r =>
    let a := ratio m q
    let b := ratio n r
    ofRatio (s != t) (a.1 * b.1) (a.2 * b.2)
  | nan, _ => nan
  | _, nan => nan
  | x, y => if x.isZero || y.isZero then nan else infinity (x.isNegative != y.isNegative)

def divide : Binary64 → Binary64 → Binary64
  | finite s m q, finite t n r =>
    if n = 0 then (if m = 0 then nan else infinity (s != t))
    else
      let a := ratio m q
      let b := ratio n r
      ofRatio (s != t) (a.1 * b.2) (a.2 * b.1)
  | nan, _ => nan
  | _, nan => nan
  | infinity _, infinity _ => nan
  | infinity s, finite t .. => infinity (s != t)
  | finite s .., infinity t => zero (s != t)

/-- Equality of numbers: the two zeros are equal, and a number that is none equals nothing. -/
def equals (x y : Binary64) : Bool := (x.isZero && y.isZero) || (x = y && x ≠ nan)

def ordering (less equal : Bool) : Ordering := if less then .lt else if equal then .eq else .gt

/-- The place of a magnitude among all; in canonical form a larger exponent is a larger number. -/
def magnitudeOrder : Binary64 → Binary64 → Ordering
  | finite _ m q, finite _ n r => (ordering (q < r) (q = r)).then (ordering (m < n) (m = n))
  | finite .., _ => .lt
  | _, finite .. => .gt
  | infinity _, nan => .lt
  | nan, infinity _ => .gt
  | _, _ => .eq

def order (x y : Binary64) : Ordering :=
  match x.isNegative, y.isNegative with
  | true, false => .lt
  | false, true => .gt
  | false, false => magnitudeOrder x y
  | true, true => magnitudeOrder y x

/-- A number as an item of a list: positional from `0.0001` up to sixteen digits, always with a point; beyond, one
digit before the point and an exponent. -/
def itemText : Binary64 → String
  | finite negative m q =>
    let sign := if negative then "-" else ""
    if m = 0 then sign ++ "0.0"
    else
      let s := Shortest.of m q
      if -4 ≤ s.exponent ∧ s.exponent ≤ 15 then sign ++ positional s ".0"
      else
        let ds := (toString s.digits).toList
        let tail := if ds.length = 1 then "" else "." ++ String.ofList (ds.drop 1)
        sign ++ String.ofList (ds.take 1) ++ tail ++ "e" ++ toString s.exponent
  | infinity negative => if negative then "-inf" else "inf"
  | nan => "NaN"

end SemanticSql.Binary64
