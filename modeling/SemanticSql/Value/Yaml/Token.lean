import SemanticSql.Value.Yaml.Text

/-! The tokens of a YAML text. Indentation becomes tokens of its own, which open and close lists and mappings. -/
namespace SemanticSql.Yaml

inductive Token where
  | text (s : String) (plain : Bool)
  | blockList | blockMapping | blockEnd
  | flowList | flowListEnd | flowMapping | flowMappingEnd
  | dash | comma | key | colon
  | documentStart | documentEnd
  deriving DecidableEq, Repr

structure Candidate where
  before : Nat
  line : Nat
  column : Nat
  required : Bool
  deriving DecidableEq, Repr

/-- A text under way; tokens and the columns of open blocks are kept latest first, and `outer` holds the candidates of
the brackets around. -/
structure Scan where
  cursor : Cursor
  tokens : List Token := []
  count : Nat := 0
  keyAllowed : Bool := true
  candidate : Option Candidate := none
  outer : List (Option Candidate) := []
  columns : List Nat := []
  deriving DecidableEq, Repr

namespace Scan

def flow (s : Scan) : Bool := !s.outer.isEmpty

def floor (s : Scan) : Nat :=
  match s.columns with
  | [] => 0
  | column :: _ => column + 1

def push (t : Token) (s : Scan) : Scan := { s with tokens := t :: s.tokens, count := s.count + 1 }

def insert (before : Nat) (t : Token) (s : Scan) : Scan :=
  let later := s.count - before
  { s with tokens := s.tokens.take later ++ t :: s.tokens.drop later, count := s.count + 1 }

/-- A candidate on an earlier line, or more than 1024 characters back, is given up; a required one may not be. -/
def refreshed? (cur : Cursor) : Option Candidate → Option (Option Candidate)
  | none => some none
  | some c =>
    if c.line < cur.line || c.column + 1024 < cur.column then
      if c.required then none else some none
    else some (some c)

def refresh? (s : Scan) : Option Scan := do
  let candidate ← refreshed? s.cursor s.candidate
  let outer ← s.outer.mapM (refreshed? s.cursor)
  some { s with candidate, outer }

def drop? (s : Scan) : Option Scan :=
  match s.candidate with
  | some c => if c.required then none else some { s with candidate := none }
  | none => some s

def offer? (s : Scan) : Option Scan :=
  if s.keyAllowed then do
    let s ← s.drop?
    let cur := s.cursor
    let required := !s.flow && s.columns.head? == some cur.column
    some { s with candidate := some ⟨s.count,cur.line,cur.column,required⟩ }
  else some s

def openBlock (before column : Nat) (t : Token) (s : Scan) : Scan :=
  if s.flow || column < s.floor then s
  else { s.insert before t with columns := column :: s.columns }

def closeColumns (floor : Nat) : List Nat → List Nat × Nat
  | [] => ([], 0)
  | column :: rest =>
    if floor ≤ column then
      let (left, closed) := closeColumns floor rest
      (left, closed + 1)
    else (column :: rest, 0)

def closeBlocks (floor : Nat) (s : Scan) : Scan :=
  if s.flow then s
  else
    let (columns, closed) := closeColumns floor s.columns
    { s with
      columns
      tokens := List.replicate closed .blockEnd ++ s.tokens
      count := s.count + closed }

def mark (k : Nat) (t : Token) (s : Scan) : Scan := { s with cursor := s.cursor.advance k }.push t

def document? (t : Token) (s : Scan) : Option Scan := do
  let s ← (s.closeBlocks 0).drop?
  some ({ s with keyAllowed := false }.mark 3 t)

def openBracket? (t : Token) (s : Scan) : Option Scan := do
  let s ← s.offer?
  some ({ s with candidate := none, outer := s.candidate :: s.outer, keyAllowed := true }.mark 1 t)

def closeBracket? (t : Token) (s : Scan) : Option Scan := do
  let s ← s.drop?
  let s := match s.outer with
    | [] => s
    | candidate :: outer => { s with candidate, outer }
  some ({ s with keyAllowed := false }.mark 1 t)

def comma? (s : Scan) : Option Scan := do
  let s ← s.drop?
  some ({ s with keyAllowed := true }.mark 1 .comma)

def dash? (s : Scan) : Option Scan := do
  guard (s.flow || s.keyAllowed)
  let s ← (s.openBlock s.count s.cursor.column .blockList).drop?
  some ({ s with keyAllowed := true }.mark 1 .dash)

def explicitKey? (s : Scan) : Option Scan := do
  guard (s.flow || s.keyAllowed)
  let s ← (s.openBlock s.count s.cursor.column .blockMapping).drop?
  some ({ s with keyAllowed := !s.flow }.mark 1 .key)

def colon? (s : Scan) : Option Scan :=
  match s.candidate with
  | some c =>
    let s := (s.insert c.before .key).openBlock c.before c.column .blockMapping
    some ({ s with candidate := none, keyAllowed := false }.mark 1 .colon)
  | none => do
    guard (s.flow || s.keyAllowed)
    let s := s.openBlock s.count s.cursor.column .blockMapping
    some ({ s with keyAllowed := !s.flow }.mark 1 .colon)

def blockText? (s : Scan) : Option Scan := do
  let s ← s.drop?
  let scanned ← Yaml.blockText? s.floor s.cursor
  some ({ s with keyAllowed := true, cursor := scanned.next }.push (.text scanned.text false))

def quotedText? (s : Scan) : Option Scan := do
  let s ← s.offer?
  let scanned ← quoted? s.cursor
  some ({ s with keyAllowed := false, cursor := scanned.next }.push (.text scanned.text false))

def plainText? (s : Scan) : Option Scan := do
  let s ← s.offer?
  let scanned ← plain? s.flow s.floor s.cursor
  some ({ s with keyAllowed := scanned.crossedLine, cursor := scanned.next }.push (.text scanned.text true))

def isIndicator (c : Char) : Bool :=
  "-?:,[]#&*!|>'\"%@`".toList.contains c || c = '\x7b' || c = '\x7d'

/-- Whether a plain text starts here. A dash may start one if no blank follows it, and outside brackets so may a
question mark and a colon. -/
def startsPlain (flow : Bool) : List Char → Bool
  | [] => false
  | c :: rest =>
    if !isIndicator c then !(isBlank c || isBreak c)
    else if c = '-' then !endsWord rest
    else (c = '?' || c = ':') && !flow && !endsWord rest

def token? (s : Scan) : Option Scan :=
  if s.cursor.atMarker then
    s.document? (if s.cursor.rest.head? = some '-' then .documentStart else .documentEnd)
  else
    match s.cursor.rest with
    | [] => none
    | c :: rest =>
      if c = '%' && s.cursor.column = 0 then none
      else if c = '[' then s.openBracket? .flowList
      else if c = '\x7b' then s.openBracket? .flowMapping
      else if c = ']' then s.closeBracket? .flowListEnd
      else if c = '\x7d' then s.closeBracket? .flowMappingEnd
      else if c = ',' then s.comma?
      else if c = '-' && endsWord rest then s.dash?
      else if c = '?' && (s.flow || endsWord rest) then s.explicitKey?
      else if c = ':' && (s.flow || endsWord rest) then s.colon?
      else if (c = '|' || c = '>') && !s.flow then s.blockText?
      else if c = '\'' || c = '"' then s.quotedText?
      else if startsPlain s.flow (c :: rest) then s.plainText?
      else none

/-- All tokens, in order; every token takes a character, so `left` is bounded by the length of the text. -/
def run? : Nat → Scan → Option (List Token)
  | 0, _ => none
  | left + 1, s => do
    let (keyAllowed, cursor) := s.cursor.skip s.flow s.keyAllowed
    let s ← { s with keyAllowed, cursor }.refresh?
    if cursor.rest.isEmpty then
      let s ← (s.closeBlocks 0).drop?
      some s.tokens.reverse
    else
      let s ← (s.closeBlocks (cursor.column + 1)).token?
      run? left s

end Scan

def tokens? (cs : List Char) : Option (List Token) := Scan.run? (cs.length + 1) { cursor := ⟨0,0,cs⟩ }

end SemanticSql.Yaml
