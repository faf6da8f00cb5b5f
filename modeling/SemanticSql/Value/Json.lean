import SemanticSql.Value

/-!
Reading JSON text. A reader takes the rest of the text and gives what it read together with what follows; `none` is a
text that is not JSON.
-/
namespace SemanticSql.Json

def isBlank (c : Char) : Bool := c = ' ' || c = '\t' || c = '\n' || c = '\r'

def skipBlank (cs : List Char) : List Char := cs.dropWhile isBlank

def hexDigit? (c : Char) : Option Nat :=
  if c.isDigit then some (c.toNat - 48)
  else if 'a' ≤ c ∧ c ≤ 'f' then some (c.toNat - 87)
  else if 'A' ≤ c ∧ c ≤ 'F' then some (c.toNat - 55)
  else none

def unit16? : List Char → Option (Nat × List Char)
  | a :: b :: c :: d :: rest => do
    let a ← hexDigit? a
    let b ← hexDigit? b
    let c ← hexDigit? c
    let d ← hexDigit? d
    some (((a * 16 + b) * 16 + c) * 16 + d, rest)
  | _ => none

def codePoint? (cs : List Char) : Option (Char × List Char) := do
  let (high, rest) ← unit16? cs
  if 0xD800 ≤ high ∧ high < 0xDC00 then
    match rest with
    | '\\' :: 'u' :: rest => do
      let (low, rest) ← unit16? rest
      if 0xDC00 ≤ low ∧ low < 0xE000 then
        some (Char.ofNat (0x10000 + (high - 0xD800) * 0x400 + (low - 0xDC00)), rest)
      else none
    | _ => none
  else if 0xDC00 ≤ high ∧ high < 0xE000 then none
  else some (Char.ofNat high, rest)

def escape? : List Char → Option (Char × List Char)
  | '"' :: rest => some ('"', rest)
  | '\\' :: rest => some ('\\', rest)
  | '/' :: rest => some ('/', rest)
  | 'b' :: rest => some (Char.ofNat 8, rest)
  | 'f' :: rest => some (Char.ofNat 12, rest)
  | 'n' :: rest => some ('\n', rest)
  | 'r' :: rest => some ('\r', rest)
  | 't' :: rest => some ('\t', rest)
  | 'u' :: rest => codePoint? rest
  | _ => none

def text? (done : List Char) : Nat → List Char → Option (String × List Char)
  | 0, _ => none
  | _, [] => none
  | steps + 1, c :: rest =>
    if c = '"' then some (String.ofList done.reverse, rest)
    else if c = '\\' then
      match escape? rest with
      | some (c, rest) => text? (c :: done) steps rest
      | none => none
    else if c.toNat < 32 then none
    else text? (c :: done) steps rest

def digits (cs : List Char) : List Nat × List Char :=
  ((cs.takeWhile Char.isDigit).map fun c => c.toNat - 48, cs.dropWhile Char.isDigit)

structure Numeral where
  negative : Bool
  whole : List Nat
  fraction : Option (List Nat)
  exponent : Option (Bool × List Nat)
  deriving DecidableEq, Repr

def numeral? (cs : List Char) : Option (Numeral × List Char) := do
  let (negative, cs) := match cs with
    | '-' :: rest => (true, rest)
    | _ => (false, cs)
  let (whole, cs) := digits cs
  guard (whole ≠ [] ∧ ¬(whole.head? = some 0 ∧ whole.length > 1))
  let (fraction, cs) ← match cs with
    | '.' :: rest =>
      let (ds, rest) := digits rest
      if ds.isEmpty then none else some (some ds, rest)
    | _ => some (none, cs)
  match cs with
  | c :: rest =>
    if c = 'e' ∨ c = 'E' then
      let (sign, rest) := match rest with
        | '+' :: rest => (false, rest)
        | '-' :: rest => (true, rest)
        | _ => (false, rest)
      let (ds, rest) := digits rest
      if ds.isEmpty then none else some (⟨negative,whole,fraction,some (sign, ds)⟩, rest)
    else some (⟨negative,whole,fraction,none⟩, cs)
  | [] => some (⟨negative,whole,fraction,none⟩, cs)

def word64 : Nat := twoTo 64

/-- Takes digits into a significand of 64 bits as long as they fit: significand, digits taken, digits left. -/
def accumulate (significand taken : Nat) : List Nat → Nat × Nat × List Nat
  | [] => (significand, taken, [])
  | d :: rest =>
    if significand * 10 + d < word64 then accumulate (significand * 10 + d) (taken + 1) rest
    else (significand, taken, d :: rest)

/-- `significand * 10 ^ exponent`, by one multiplication or division by a power of ten; a number too large is refused.
-/
def scale? (f : Binary64) (exponent : Int) : Nat → Option Binary64
  | 0 => some f
  | left + 1 =>
    if exponent.natAbs ≤ 308 then
      if 0 ≤ exponent then
        let g := f.timesPowerOfTen exponent.toNat
        if g.isFinite then some g else none
      else some (f.overPowerOfTen (-exponent).toNat)
    else if f = Binary64.zero false then some f
    else if 0 ≤ exponent then none
    else scale? (f.overPowerOfTen 308) (exponent + 308) left

def number? (n : Numeral) : Option Value :=
  let (significand, taken, dropped) := accumulate 0 0 n.whole
  if n.fraction.isNone ∧ n.exponent.isNone ∧ dropped.isEmpty ∧ ¬ n.negative then some (.int significand)
  else if n.fraction.isNone ∧ n.exponent.isNone ∧ dropped.isEmpty ∧ 0 < significand ∧ significand ≤ twoTo 63 then
    some (.int (-(Int.ofNat significand)))
  else
    let (significand, added, _) := match n.fraction with
      | some ds => accumulate significand 0 ds
      | none => (significand, 0, [])
    let start : Int := Int.ofNat (n.whole.length - taken) - Int.ofNat added
    let exponent : Int := match n.exponent with
      | some (true, ds) => start - Int.ofNat (ds.foldl (fun k d => k * 10 + d) 0)
      | some (false, ds) => start + Int.ofNat (ds.foldl (fun k d => k * 10 + d) 0)
      | none => start
    -- beyond every exponent that matters the size of the exponent makes no difference
    let exponent := max (-100000) (min 100000 exponent)
    (scale? (Binary64.ofNat significand) exponent 400).map fun f => .float (if n.negative then f.neg else f)

mutual

def value? : Nat → List Char → Option (Value × List Char)
  | 0, _ => none
  | steps + 1, cs =>
    match skipBlank cs with
    | 'n' :: 'u' :: 'l' :: 'l' :: rest => some (.null, rest)
    | 't' :: 'r' :: 'u' :: 'e' :: rest => some (.bool true, rest)
    | 'f' :: 'a' :: 'l' :: 's' :: 'e' :: rest => some (.bool false, rest)
    | '"' :: rest => (text? [] (rest.length + 1) rest).map fun p => (.str p.1, p.2)
    | '[' :: rest =>
      match skipBlank rest with
      | ']' :: rest => some (.list [], rest)
      | rest => (items? [] steps rest).map fun p => (.list p.1, p.2)
    | '\x7b' :: rest =>
      match skipBlank rest with
      | '\x7d' :: rest => some (.object [], rest)
      | rest => (members? [] steps rest).map fun p => (.object p.1, p.2)
    | cs => do
      let (n, rest) ← numeral? cs
      let v ← number? n
      some (v, rest)

def items? (done : List Value) : Nat → List Char → Option (List Value × List Char)
  | 0, _ => none
  | steps + 1, cs =>
    match value? steps cs with
    | none => none
    | some (v, rest) =>
      match skipBlank rest with
      | ',' :: rest => items? (v :: done) steps rest
      | ']' :: rest => some ((v :: done).reverse, rest)
      | _ => none

def members? (done : Dict Value) : Nat → List Char → Option (Dict Value × List Char)
  | 0, _ => none
  | steps + 1, cs =>
    match skipBlank cs with
    | '"' :: rest =>
      match text? [] (rest.length + 1) rest with
      | none => none
      | some (key, rest) =>
        match skipBlank rest with
        | ':' :: rest =>
          match value? steps rest with
          | none => none
          | some (v, rest) =>
            match skipBlank rest with
            | ',' :: rest => members? (done.insert key v) steps rest
            | '\x7d' :: rest => some (done.insert key v, rest)
            | _ => none
        | _ => none
    | _ => none

end

def parse? (s : String) : Option Value :=
  let cs := s.toList
  match value? (2 * cs.length + 2) cs with
  | some (v, rest) => if (skipBlank rest).isEmpty then some v else none
  | none => none

end SemanticSql.Json
