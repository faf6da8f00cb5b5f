/-! Positions in a YAML text. A cursor holds the text that is left, and the line and column at which it starts. -/
namespace SemanticSql.Yaml

structure Cursor where
  line : Nat
  column : Nat
  rest : List Char
  deriving DecidableEq, Repr

def isAllowed (c : Char) : Bool :=
  let n := c.toNat
  n = 9 || n = 10 || n = 13 || (32 ≤ n && n ≤ 126) || n = 0x85 || (0xA0 ≤ n && n ≤ 0xD7FF) ||
    (0xE000 ≤ n && n ≤ 0xFFFD && n ≠ 0xFEFF) || 0x10000 ≤ n

def lineSeparator : Char := Char.ofNat 0x2028

def paragraphSeparator : Char := Char.ofNat 0x2029

def isBreak (c : Char) : Bool := c = '\n' || c = lineSeparator || c = paragraphSeparator

def isBlank (c : Char) : Bool := c = ' ' || c = '\t'

def endsWord : List Char → Bool
  | [] => true
  | c :: _ => isBlank c || isBreak c

def isMarker : List Char → Bool
  | '-' :: '-' :: '-' :: rest => endsWord rest
  | '.' :: '.' :: '.' :: rest => endsWord rest
  | _ => false

def unifyBreaks : List Char → List Char
  | '\r' :: '\n' :: rest => '\n' :: unifyBreaks rest
  | c :: rest => (if c = '\r' ∨ c = Char.ofNat 0x85 then '\n' else c) :: unifyBreaks rest
  | [] => []

namespace Cursor

def advance (k : Nat) (cur : Cursor) : Cursor := ⟨cur.line,cur.column + k,cur.rest.drop k⟩

def atMarker (cur : Cursor) : Bool := cur.column = 0 && isMarker cur.rest

/-- Skips blanks, comments and line breaks. Outside brackets a new line allows a key to start; a tab is skipped only
between brackets or where no key may start. -/
def skipFrom (flow : Bool) : Bool → Bool → Nat → Nat → List Char → Bool × Cursor
  | _, keyAllowed, line, column, [] => (keyAllowed, ⟨line,column,[]⟩)
  | comment, keyAllowed, line, column, c :: rest =>
    if isBreak c then skipFrom flow false (keyAllowed || !flow) (line + 1) 0 rest
    else if comment || c = '#' then skipFrom flow true keyAllowed line (column + 1) rest
    else if c = ' ' || (c = '\t' && (flow || !keyAllowed)) then
      skipFrom flow false keyAllowed line (column + 1) rest
    else (keyAllowed, ⟨line,column,c :: rest⟩)

def skip (flow keyAllowed : Bool) (cur : Cursor) : Bool × Cursor :=
  skipFrom flow false keyAllowed cur.line cur.column cur.rest

end Cursor

end SemanticSql.Yaml
