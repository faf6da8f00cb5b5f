import SemanticSql.Value.Json
import SemanticSql.Value.Yaml.Cursor

/-! Texts in YAML: between quotes, plain, and in blocks. -/
namespace SemanticSql.Yaml

structure Scanned where
  text : String
  next : Cursor
  deriving DecidableEq, Repr

inductive Pending where
  | blanks (cs : List Char)
  | breaks (escaped : Bool) (cs : List Char)
  deriving DecidableEq, Repr

namespace Pending

def nothing : Pending := blanks []

def crossedLine : Pending → Bool
  | blanks _ => false
  | breaks .. => true

def folded : Pending → List Char
  | blanks cs => cs
  | breaks true cs => cs
  | breaks false cs =>
    match cs.reverse with
    | [] => []
    | ['\n'] => [' ']
    | '\n' :: rest => rest.reverse
    | _ => cs

def add (p : Pending) (c : Char) : Pending :=
  if isBreak c then
    match p with
    | blanks _ => breaks false [c]
    | breaks escaped cs => breaks escaped (c :: cs)
  else
    match p with
    | blanks cs => blanks (c :: cs)
    | p => p

end Pending

def hexValue? (cs : List Char) : Option Nat :=
  cs.foldlM (fun n c => (Json.hexDigit? c).map fun d => n * 16 + d) 0

def numbered? (cs : List Char) : Option Char := do
  let n ← hexValue? cs
  if (0xD800 ≤ n ∧ n ≤ 0xDFFF) ∨ 0x10FFFF < n then none else some (Char.ofNat n)

def letterEscape? : Char → Option Char
  | '0' => some (Char.ofNat 0)
  | 'a' => some (Char.ofNat 7)
  | 'b' => some (Char.ofNat 8)
  | 't' | '\t' => some '\t'
  | 'n' => some '\n'
  | 'v' => some (Char.ofNat 11)
  | 'f' => some (Char.ofNat 12)
  | 'r' => some '\r'
  | 'e' => some (Char.ofNat 27)
  | ' ' => some ' '
  | '"' => some '"'
  | '/' => some '/'
  | '\\' => some '\\'
  | 'N' => some (Char.ofNat 0x85)
  | '_' => some (Char.ofNat 0xA0)
  | 'L' => some lineSeparator
  | 'P' => some paragraphSeparator
  | _ => none

def breaksOff (column : Nat) (cs : List Char) : Bool := column = 0 && isMarker cs

def doubleQuoted? (done : List Char) (pending : Pending) (line column : Nat) : List Char → Option Scanned
  | [] => none
  | '"' :: rest => some ⟨String.ofList (pending.folded ++ done).reverse,⟨line,column + 1,rest⟩⟩
  | '\\' :: 'x' :: a :: b :: rest => do
    let c ← numbered? [a,b]
    doubleQuoted? (c :: (pending.folded ++ done)) .nothing line (column + 4) rest
  | '\\' :: 'u' :: a :: b :: c :: d :: rest => do
    let c ← numbered? [a,b,c,d]
    doubleQuoted? (c :: (pending.folded ++ done)) .nothing line (column + 6) rest
  | '\\' :: 'U' :: a :: b :: c :: d :: e :: f :: g :: h :: rest => do
    let c ← numbered? [a,b,c,d,e,f,g,h]
    doubleQuoted? (c :: (pending.folded ++ done)) .nothing line (column + 10) rest
  | '\\' :: c :: rest =>
    if isBreak c then doubleQuoted? (pending.folded ++ done) (.breaks true []) (line + 1) 0 rest
    else do
      let c ← letterEscape? c
      doubleQuoted? (c :: (pending.folded ++ done)) .nothing line (column + 2) rest
  | c :: rest =>
    if isBreak c then doubleQuoted? done (pending.add c) (line + 1) 0 rest
    else if isBlank c then doubleQuoted? done (pending.add c) line (column + 1) rest
    else if breaksOff column (c :: rest) then none
    else doubleQuoted? (c :: (pending.folded ++ done)) .nothing line (column + 1) rest

def singleQuoted? (done : List Char) (pending : Pending) (line column : Nat) : List Char → Option Scanned
  | [] => none
  | '\'' :: '\'' :: rest =>
    singleQuoted? ('\'' :: (pending.folded ++ done)) .nothing line (column + 2) rest
  | '\'' :: rest => some ⟨String.ofList (pending.folded ++ done).reverse,⟨line,column + 1,rest⟩⟩
  | c :: rest =>
    if isBreak c then singleQuoted? done (pending.add c) (line + 1) 0 rest
    else if isBlank c then singleQuoted? done (pending.add c) line (column + 1) rest
    else if breaksOff column (c :: rest) then none
    else singleQuoted? (c :: (pending.folded ++ done)) .nothing line (column + 1) rest

def quoted? (cur : Cursor) : Option Scanned :=
  match cur.rest with
  | '"' :: rest => doubleQuoted? [] .nothing cur.line (cur.column + 1) rest
  | '\'' :: rest => singleQuoted? [] .nothing cur.line (cur.column + 1) rest
  | _ => none

def isBracket (c : Char) : Bool := c = ',' || c = '[' || c = ']' || c = '\x7b' || c = '\x7d'

/-- Where a plain text ends, apart from blanks: at a colon that ends a word, and between brackets at a bracket
or comma. -/
def endsPlain (flow : Bool) : List Char → Bool
  | [] => true
  | c :: rest => (c = ':' && endsWord rest) || (flow && isBracket c)

def isStray (flow : Bool) : List Char → Bool
  | ':' :: c :: _ => flow && (isBracket c || c = '?')
  | _ => false

structure Plain where
  text : String
  crossedLine : Bool
  next : Cursor
  deriving DecidableEq, Repr

def plainFrom? (flow : Bool) (floor : Nat) (done : List Char) (pending : Pending) (line column : Nat) :
    List Char → Option Plain
  | [] => some ⟨String.ofList done.reverse,pending.crossedLine,⟨line,column,[]⟩⟩
  | c :: rest =>
    if isBreak c then plainFrom? flow floor done (pending.add c) (line + 1) 0 rest
    else if isBlank c then
      if c = '\t' && pending.crossedLine && column < floor then none
      else plainFrom? flow floor done (pending.add c) line (column + 1) rest
    else
      let outside := pending.crossedLine && !flow && column < floor
      let comment := c = '#' && pending != .nothing
      let marker := column = 0 && pending != .nothing && isMarker (c :: rest)
      if outside || comment || marker || endsPlain flow (c :: rest) then
        some ⟨String.ofList done.reverse,pending.crossedLine,⟨line,column,c :: rest⟩⟩
      else if isStray flow (c :: rest) then none
      else plainFrom? flow floor (c :: (pending.folded ++ done)) .nothing line (column + 1) rest

def plain? (flow : Bool) (floor : Nat) (cur : Cursor) : Option Plain :=
  plainFrom? flow floor [] .nothing cur.line cur.column cur.rest

inductive Chomp where
  | clip | strip | keep
  deriving DecidableEq, Repr

structure BlockHeader where
  chomp : Chomp
  indent : Option Nat
  deriving DecidableEq, Repr

def chomp? (c : Char) : Option Chomp :=
  if c = '+' then some .keep else if c = '-' then some .strip else none

def indentDigit? (c : Char) : Option Nat := if c.isDigit then some (c.toNat - 48) else none

/-- The marks behind `|` or `>`: how to chomp and an explicit indentation, in any order, each at most once. -/
def blockHeader? : List Char → Option (BlockHeader × Nat)
  | [] => some (⟨.clip,none⟩, 0)
  | c :: rest =>
    match chomp? c, indentDigit? c with
    | some chomp, _ =>
      match rest.head?.bind indentDigit? with
      | some 0 => none
      | some i => some (⟨chomp,some i⟩, 2)
      | none => some (⟨chomp,none⟩, 1)
    | none, some 0 => none
    | none, some i =>
      match rest.head?.bind chomp? with
      | some chomp => some (⟨chomp,some i⟩, 2)
      | none => some (⟨.clip,some i⟩, 1)
    | none, none => some (⟨.clip,none⟩, 0)

/-- What stands before a line of a block: line breaks of empty lines, reversed; the widest indentation seen; and
the place of the line. -/
structure Margin where
  breaks : List Char
  widest : Nat
  next : Cursor
  deriving DecidableEq, Repr

def marginFrom? (indent : Option Nat) (widest : Nat) (breaks : List Char) (line column : Nat) :
    List Char → Option Margin
  | [] => some ⟨breaks,widest,⟨line,column,[]⟩⟩
  | c :: rest =>
    let indenting := match indent with
      | none => true
      | some i => column < i
    if c = ' ' && indenting then marginFrom? indent (max widest (column + 1)) breaks line (column + 1) rest
    else if c = '\t' && indenting then none
    else if isBreak c then marginFrom? indent widest (c :: breaks) (line + 1) 0 rest
    else some ⟨breaks,widest,⟨line,column,c :: rest⟩⟩

def margin? (indent : Option Nat) (cur : Cursor) : Option Margin :=
  marginFrom? indent cur.column [] cur.line cur.column cur.rest

/-- A block under way; its texts are reversed. -/
structure Block where
  done : List Char
  lastBreak : List Char
  spaced : Bool
  margin : Margin
  deriving DecidableEq, Repr

/-- Takes up the line at the margin. In a folded block the break before it is a blank if neither line starts with a
blank, and nothing if empty lines stand between. -/
def Block.takeLine? (folded : Bool) (indent : Nat) (b : Block) : Option Block := do
  let cur := b.margin.next
  let spaced := cur.rest.head?.any isBlank
  let joint :=
    if folded && b.lastBreak = ['\n'] && !b.spaced && !spaced then
      if b.margin.breaks.isEmpty then [' '] else b.margin.breaks
    else b.margin.breaks ++ b.lastBreak
  let content := cur.rest.takeWhile fun c => !isBreak c
  let done := content.reverse ++ joint ++ b.done
  match cur.rest.drop content.length with
  | [] => some ⟨done,[],spaced,⟨[],0,cur.advance content.length⟩⟩
  | c :: rest =>
    let margin ← margin? (some indent) ⟨cur.line + 1,0,rest⟩
    some ⟨done,[c],spaced,margin⟩

def Block.takeLines? (folded : Bool) (indent : Nat) : Nat → Block → Option Block
  | 0, _ => none
  | left + 1, b =>
    if b.margin.next.column = indent && !b.margin.next.rest.isEmpty then
      (b.takeLine? folded indent).bind (takeLines? folded indent left)
    else some b

def blockText? (floor : Nat) (cur : Cursor) : Option Scanned := do
  let folded := cur.rest.head? = some '>'
  let (header, marks) ← blockHeader? (cur.rest.drop 1)
  let cur := cur.advance (marks + 1)
  let cur := cur.advance (cur.rest.takeWhile isBlank).length
  let cur := if cur.rest.head? = some '#' then cur.advance (cur.rest.takeWhile fun c => !isBreak c).length else cur
  let start ← match cur.rest with
    | [] => some cur
    | c :: rest => if isBreak c then some ⟨cur.line + 1,0,rest⟩ else none
  let given := header.indent.map fun i => floor - 1 + i
  let margin ← margin? given start
  let indent := given.getD (max margin.widest (max floor 1))
  let block ← Block.takeLines? folded indent (start.rest.length + 1) ⟨[],[],false,margin⟩
  let tail := match header.chomp with
    | .strip => []
    | .clip => block.lastBreak
    | .keep => block.margin.breaks ++ block.lastBreak
  some ⟨String.ofList (tail ++ block.done).reverse,block.margin.next⟩

end SemanticSql.Yaml
