import SemanticSql.Number.Power

/-! Binary floating point numbers of 64 bits, as exact data. -/
namespace SemanticSql

inductive Binary64 where
  | finite (negative : Bool) (mantissa : Nat) (exponent : Int)
  | infinity (negative : Bool)
  | nan
  deriving DecidableEq, Repr

namespace Binary64

def leastExponent : Int := -1074

def zero (negative : Bool) : Binary64 := finite negative 0 leastExponent

def divRound (n d : Nat) : Nat :=
  let q := n / d
  let r := n % d
  if d < 2 * r ∨ (2 * r = d ∧ q % 2 = 1) then q + 1 else q

def scaled (n d : Nat) (q : Int) : Nat × Nat :=
  if 0 ≤ q then (n, d * twoTo q.toNat) else (n * twoTo (-q).toNat, d)

def ofRatio (negative : Bool) (n d : Nat) : Binary64 :=
  if n = 0 then zero negative
  else
    let guess : Int := Int.ofNat n.log2 - Int.ofNat d.log2 - 52
    let whole := scaled n d guess
    let fitted := if whole.1 / whole.2 < twoTo 52 then guess - 1 else guess
    let q := max fitted leastExponent
    let part := scaled n d q
    let m := divRound part.1 part.2
    let canonical := if m = twoTo 53 then (twoTo 52, q + 1) else (m, q)
    if 971 < canonical.2 then infinity negative else finite negative canonical.1 canonical.2

def ratio (mantissa : Nat) (exponent : Int) : Nat × Nat :=
  if 0 ≤ exponent then (mantissa * twoTo exponent.toNat, 1) else (mantissa, twoTo (-exponent).toNat)

def ofNat (n : Nat) : Binary64 := ofRatio false n 1

def ofInt (i : Int) : Binary64 := ofRatio (i < 0) i.natAbs 1

def isFinite : Binary64 → Bool
  | finite .. => true
  | _ => false

def neg : Binary64 → Binary64
  | finite negative m q => finite (!negative) m q
  | infinity negative => infinity (!negative)
  | nan => nan

def timesPowerOfTen (f : Binary64) (k : Nat) : Binary64 :=
  match f, ofNat (tenTo k) with
  | finite s m q, finite _ m' q' =>
    let a := ratio m q
    let b := ratio m' q'
    ofRatio s (a.1 * b.1) (a.2 * b.2)
  | f, _ => f

def overPowerOfTen (f : Binary64) (k : Nat) : Binary64 :=
  match f, ofNat (tenTo k) with
  | finite s m q, finite _ m' q' =>
    let a := ratio m q
    let b := ratio m' q'
    ofRatio s (a.1 * b.2) (a.2 * b.1)
  | f, _ => f

/-- The number nearest to `± digits * 10 ^ scale`. Far outside the range the answer is known from the size alone. -/
def ofDecimal (negative : Bool) (digits : Nat) (scale : Int) : Binary64 :=
  if digits = 0 then zero negative
  else
    let size : Int := Int.ofNat (digits.log2 / 3 + 1) + scale
    if scale > 400 then infinity negative
    else if size < -400 then zero negative
    else if 0 ≤ scale then ofRatio negative (digits * tenTo scale.toNat) 1
    else ofRatio negative digits (tenTo (-scale).toNat)

end Binary64

end SemanticSql
