import SemanticSql.Number.Numeral
import SemanticSql.Text.Blank
import SemanticSql.Text.Cut

/-!
The pieces of a template: text that stands for itself, and the tokens of outputs (between double braces) and of tags
(between a brace and a percent sign).
-/
namespace SemanticSql.Template

inductive Token where
  | name (s : String)
  | number (n : Nat)
  | fraction (x : Binary64)
  | text (s : String)
  | mark (s : String)
  deriving DecidableEq, Repr

inductive Piece where
  | text (s : String)
  | output (tokens : List Token)
  | tag (tokens : List Token)
  deriving DecidableEq, Repr

inductive Opening where
  | output | tag | comment
  deriving DecidableEq, Repr

def opening? : List Char → Option (Opening × List Char)
  | '\x7b' :: '\x7b' :: rest => some (.output, rest)
  | '\x7b' :: '%' :: rest => some (.tag, rest)
  | '\x7b' :: '#' :: rest => some (.comment, rest)
  | _ => none

def plain : List Char → List Char × Option (Opening × List Char)
  | [] => ([], none)
  | c :: rest =>
    match opening? (c :: rest) with
    | some found => ([], some found)
    | none =>
      let (text, found) := plain rest
      (c :: text, found)

def trimMark : List Char → Bool × List Char
  | '-' :: rest => (true, rest)
  | '+' :: rest => (false, rest)
  | cs => (false, cs)

def afterComment? : List Char → Option (Bool × List Char)
  | '-' :: '#' :: '\x7d' :: rest => some (true, rest)
  | '#' :: '\x7d' :: rest => some (false, rest)
  | _ :: rest => afterComment? rest
  | [] => none

def isGap (c : Char) : Bool := c = ' ' || c = '\t' || c = '\n' || c = '\r' || c = Char.ofNat 12

def skipGap (cs : List Char) : List Char := cs.dropWhile isGap

def isNameStart (c : Char) : Bool := c.isAlpha || c = '_'

def isNameChar (c : Char) : Bool := c.isAlphanum || c = '_'

def upToQuote? (quote : Char) : List Char → Option (List Char × List Char)
  | [] => none
  | '\\' :: c :: rest => (upToQuote? quote rest).map fun p => ('\\' :: c :: p.1, p.2)
  | c :: rest =>
    if c = quote then some ([], rest)
    else (upToQuote? quote rest).map fun p => (c :: p.1, p.2)

def unsigned? (base : Nat) : List Char → Option Nat
  | '+' :: ds => Numeral.digits? base ds
  | ds => Numeral.digits? base ds

def escape? : Char → Option Char
  | 'b' => some (Char.ofNat 8)
  | 'f' => some (Char.ofNat 12)
  | 'n' => some '\n'
  | 'r' => some '\r'
  | 't' => some '\t'
  | '"' => some '"'
  | '\'' => some '\''
  | '\\' => some '\\'
  | '/' => some '/'
  | _ => none

def isOctal (c : Char) : Bool := '0' ≤ c && c ≤ '7'

/-- A character given by one unit of sixteen bits, or by two of which the first has been read. -/
def unit? (pending : Option Nat) (n : Nat) : Option (Option Nat × List Char) :=
  let isHigh := 0xD800 ≤ n && n ≤ 0xDBFF
  let isLow := 0xDC00 ≤ n && n ≤ 0xDFFF
  match pending with
  | none => if isHigh || isLow then some (some n, []) else some (none, [Char.ofNat n])
  | some high =>
    if isLow && high ≤ 0xDBFF then
      some (none, [Char.ofNat (0x10000 + (high - 0xD800) * 0x400 + (n - 0xDC00))])
    else none

inductive Escaped where
  | unit (n : Nat)
  | chars (cs : List Char)
  deriving DecidableEq, Repr

def escaped? : List Char → Option (Escaped × Nat)
  | [] => none
  | c :: rest =>
    if c = 'u' then do
      guard (4 ≤ rest.length)
      let n ← unsigned? 16 (rest.take 4)
      some (.unit n, 5)
    else if c = 'x' then do
      guard (2 ≤ rest.length)
      let n ← unsigned? 16 (rest.take 2)
      some (.chars [Char.ofNat n], 3)
    else if isOctal c then do
      let ds := c :: (rest.take 2).takeWhile isOctal
      let n ← Numeral.digits? 8 ds
      if n < 256 then some (.chars [Char.ofNat n], ds.length) else none
    else
      match escape? c with
      | some e => some (.chars [e], 1)
      | none => some (.chars ['\\',c], 1)

/-- Replaces escapes. `skip` is the number of characters that belong to the last escape, and `pending` a unit that
waits for its second half. -/
def unescapeFrom? : Nat → Option Nat → List Char → Option (List Char)
  | _, pending, [] => if pending.isSome then none else some []
  | skip + 1, pending, _ :: rest => unescapeFrom? skip pending rest
  | 0, pending, c :: rest =>
    if c = '\\' then do
      let (found, taken) ← escaped? rest
      let (pending, cs) ← match found with
        | .unit n => unit? pending n
        | .chars cs => if pending.isSome then none else some (none, cs)
      (unescapeFrom? taken pending rest).map (cs ++ ·)
    else if pending.isSome then none
    else (unescapeFrom? 0 none rest).map (c :: ·)

def unescape? (cs : List Char) : Option (List Char) := unescapeFrom? 0 none cs

inductive NumberPart where
  | whole | based | fraction | exponentStart | exponent
  deriving DecidableEq, Repr

namespace NumberPart

def next? (base : Nat) (part : NumberPart) (c : Char) : Option NumberPart :=
  if c = '_' then some part
  else if c.isDigit then some (if part = exponentStart then exponent else part)
  else
    match part with
    | whole => if c = '.' then some fraction else if c = 'e' ∨ c = 'E' then some exponentStart else none
    | based => if base = 16 ∧ (Numeral.digit? 16 c).isSome then some based else none
    | fraction => if c = 'e' ∨ c = 'E' then some exponentStart else none
    | exponentStart => if c = '+' ∨ c = '-' then some exponent else none
    | exponent => none

def scan (base : Nat) (part : NumberPart) : List Char → List Char × NumberPart × List Char
  | [] => ([], part, [])
  | c :: rest =>
    match part.next? base c with
    | none => ([], part, c :: rest)
    | some part =>
      let (taken, last, after) := scan base part rest
      (c :: taken, last, after)

end NumberPart

def number? (cs : List Char) : Option (Token × List Char) := do
  let (base, part, cs) := match cs with
    | '0' :: c :: rest =>
      if c = 'b' ∨ c = 'B' then (2, NumberPart.based, rest)
      else if c = 'o' ∨ c = 'O' then (8, .based, rest)
      else if c = 'x' ∨ c = 'X' then (16, .based, rest)
      else (10, .whole, cs)
    | cs => (10, .whole, cs)
  let (taken, last, after) := part.scan base cs
  guard (taken.getLast? ≠ some '_')
  let digits := taken.filter (· ≠ '_')
  if last = .whole ∨ last = .based then
    let n ← Numeral.digits? base digits
    if n < twoTo 128 then some (.number n, after) else none
  else
    let x ← Numeral.binary64? (String.ofList digits)
    some (.fraction x, after)

def marks : List String :=
  ["//","**","==","!=",">=","<=","+","-","*","/","%",".",",",":","~","|","=",">","<","(",
    ")","[","]","\x7b","\x7d"]

def token? : List Char → Option (Token × List Char)
  | [] => none
  | c :: rest =>
    if isNameStart c then
      some (.name (String.ofList ((c :: rest).takeWhile isNameChar)), (c :: rest).dropWhile isNameChar)
    else if c.isDigit then number? (c :: rest)
    else if c = '\'' ∨ c = '"' then do
      let (inside, rest) ← upToQuote? c rest
      let text ← unescape? inside
      some (.text (String.ofList text), rest)
    else
      marks.findSome? fun m => (Text.dropLead? m.toList (c :: rest)).map fun after => (.mark m, after)

def closing? (close : Char) : List Char → Option (Bool × List Char)
  | '-' :: c :: '\x7d' :: rest => if c = close then some (true, rest) else none
  | '+' :: c :: '\x7d' :: rest => if c = close then some (false, rest) else none
  | c :: '\x7d' :: rest => if c = close then some (false, rest) else none
  | _ => none

/-- Every token takes a character, so `steps` is bounded by the length of the text. -/
def tokens? (close : Char) : Nat → List Char → Option (List Token × Bool × List Char)
  | 0, _ => none
  | steps + 1, cs =>
    let cs := skipGap cs
    match closing? close cs with
    | some (trim, rest) => some ([], trim, rest)
    | none => do
      let (first, rest) ← token? cs
      let (others, trim, rest) ← tokens? close steps rest
      some (first :: others, trim, rest)

def bareTag? (name : String) (cs : List Char) : Option (Bool × List Char) := do
  let rest ← Text.dropLead? name.toList (skipGap cs)
  closing? '%' (skipGap rest)

def rawText? : List Char → Option (List Char × Bool × Bool × List Char)
  | [] => none
  | c :: rest =>
    let found := match opening? (c :: rest) with
      | some (.tag, inside) =>
        let (before, inside) := trimMark inside
        (bareTag? "endraw" inside).map fun (after, rest) => ([], before, after, rest)
      | _ => none
    match found with
    | some found => some found
    | none => (rawText? rest).map fun (text, found) => (c :: text, found)

def withText (cs : List Char) (pieces : List Piece) : List Piece :=
  if cs.isEmpty then pieces else .text (String.ofList cs) :: pieces

/-- Cuts a template into pieces. `trim` says whether the delimiter before asks for trimming; `steps` bounds the number
of delimiters. -/
def pieces? : Nat → Bool → List Char → Option (List Piece)
  | 0, _, _ => none
  | steps + 1, trim, cs =>
    let cs := if trim then Text.trimLeft cs else cs
    match plain cs with
    | (text, none) => some (withText text [])
    | (text, some (opening, rest)) => do
      let (trimBefore, rest) := trimMark rest
      let text := if trimBefore then Text.trimRight text else text
      match opening with
      | .comment =>
        let (trim, rest) ← afterComment? rest
        let pieces ← pieces? steps trim rest
        some (withText text pieces)
      | .output =>
        let (tokens, trim, rest) ← tokens? '\x7d' (rest.length + 1) rest
        let pieces ← pieces? steps trim rest
        some (withText text (.output tokens :: pieces))
      | .tag =>
        match bareTag? "raw" rest with
        | some (trimStart, rest) =>
          let (raw, trimEnd, trim, rest) ← rawText? rest
          let raw := if trimStart then Text.trimLeft raw else raw
          let raw := if trimEnd then Text.trimRight raw else raw
          let pieces ← pieces? steps trim rest
          some (withText text (withText raw pieces))
        | none =>
          let (tokens, trim, rest) ← tokens? '%' (rest.length + 1) rest
          let pieces ← pieces? steps trim rest
          some (withText text (.tag tokens :: pieces))

def withoutLineEnd (cs : List Char) : List Char :=
  let cs := (Text.dropTail? ['\n'] cs).getD cs
  (Text.dropTail? ['\r'] cs).getD cs

def scan? (s : String) : Option (List Piece) :=
  let cs := withoutLineEnd s.toList
  pieces? (cs.length + 1) false cs

end SemanticSql.Template
