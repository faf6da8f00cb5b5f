import Mathlib.Algebra.Order.Round
import Mathlib.Data.List.Dedup
import Mathlib.Data.Rat.Floor
import SemanticSql.Number.Numeral
import SemanticSql.Proofs.ConditionText

/-! Expressions of SQL, read from their text and evaluated in exact arithmetic. A text may leave places open for the
value and for the key of a row. -/
namespace SemanticSql

inductive Cell where
  | value | key
  deriving DecidableEq, Repr

namespace Cell

def mark : Cell → Char
  | value => '?'
  | key => '#'

def text (s : Cell) : String := String.singleton s.mark

end Cell

theorem literalChars {s : String} {cs : List Char} (same : s = String.ofList cs) : s.toList = cs := by
  rw [same,String.toList_ofList]

theorem valueChars : Cell.value.text.toList = ['?'] := String.toList_singleton _

def fillCells (value key text : String) : String :=
  String.ofList (text.toList.flatMap fun c =>
    if c = Cell.value.mark then value.toList else if c = Cell.key.mark then key.toList else [c])

section
variable {value key : String}

theorem fillAppend (s t : String) : fillCells value key (s ++ t) = fillCells value key s ++ fillCells value key t := by
  simp only [fillCells,String.toList_append,List.flatMap_append,String.ofList_append]

theorem fillValue : fillCells value key Cell.value.text = value := by
  simp [fillCells,Cell.text]

theorem fillKey : fillCells value key Cell.key.text = key := by
  simp [fillCells,Cell.text,Cell.mark]

theorem fillPlain {s : String} {cs : List Char} (same : s = String.ofList cs)
    (plain : cs.all fun c => c ≠ Cell.value.mark && c ≠ Cell.key.mark) : fillCells value key s = s := by
  have single : cs.flatMap (fun c =>
      if c = Cell.value.mark then value.toList else if c = Cell.key.mark then key.toList else [c]) =
      cs.flatMap fun c => [c] := by
    refine List.flatMap_congr fun c mem => ?_
    have other := List.all_eq_true.mp plain c mem
    simp only [Bool.and_eq_true,decide_eq_true_eq] at other
    rw [if_neg other.1,if_neg other.2]
  rw [same,fillCells,String.toList_ofList,single,List.flatMap_singleton']

end

inductive Storage where
  | whole | real | string
  deriving DecidableEq, Repr

inductive UnaryOp where
  | minus | isKnown | floor | md5 | fingerprint
  deriving DecidableEq, Repr

inductive BinaryOp where
  | and | less | atLeast | plus | minus | times | over | modulo | coalesce | nullIf | toNumber
  deriving DecidableEq, Repr

inductive DistinctOp where
  | sum | count
  deriving DecidableEq, Repr

inductive Expression where
  | cell (s : Cell)
  /- `digits * 10 ^ scale`. -/
  | number (digits : Nat) (scale : Int)
  | text (s : String)
  | null
  | unary (op : UnaryOp) (a : Expression)
  | binary (op : BinaryOp) (a b : Expression)
  | cast (a : Expression) (storage : Storage)
  | distinct (op : DistinctOp) (a : Expression)
  | cases (branches : Expression)
  /- A branch and what follows it; the last one is followed by what holds otherwise. -/
  | when (condition result rest : Expression)
  deriving DecidableEq, Repr

namespace Expression
open Sql (Token)

def decimal? (cs : List Char) : Option (Nat × Int) := do
  let whole := cs.takeWhile Char.isDigit
  let parts := match cs.dropWhile Char.isDigit with
    | '.' :: rest => (rest.takeWhile Char.isDigit, rest.dropWhile Char.isDigit)
    | rest => ([], rest)
  guard !whole.isEmpty
  let exponent ← Numeral.exponent? parts.2
  some (Numeral.digitsValue (whole ++ parts.1), exponent - parts.1.length)

def storage? : List Token → Option (Storage × List Token)
  | .word "DECIMAL" :: .symbol '(' :: .word _ :: .symbol ',' :: .word "0" :: .symbol ')' :: rest => some (.whole, rest)
  | .word "NUMERIC" :: .symbol '(' :: .word _ :: .symbol ',' :: .word "0" :: .symbol ')' :: rest => some (.whole, rest)
  | .word "DOUBLE" :: .word "PRECISION" :: rest => some (.real, rest)
  | .word "FLOAT64" :: rest => some (.real, rest)
  | .word "BIGNUMERIC" :: rest => some (.real, rest)
  | .word "STRING" :: rest => some (.string, rest)
  | _ => none

inductive Suffix where
  | operator (op : BinaryOp)
  | known
  | storage (s : Storage)

inductive Level where
  | conjunction | comparison | sum | product | typed

def Level.suffix? : Level → List Token → Option (Suffix × List Token)
  | conjunction, .word "AND" :: rest => some (.operator .and, rest)
  | comparison, .symbol '<' :: rest => some (.operator .less, rest)
  | comparison, .symbol '>' :: .symbol '=' :: rest => some (.operator .atLeast, rest)
  | comparison, .word "IS" :: .word "NOT" :: .word "NULL" :: rest => some (.known, rest)
  | sum, .symbol '+' :: rest => some (.operator .plus, rest)
  | sum, .symbol '-' :: rest => some (.operator .minus, rest)
  | product, .symbol '*' :: rest => some (.operator .times, rest)
  | product, .symbol '/' :: rest => some (.operator .over, rest)
  | product, .symbol '%' :: rest => some (.operator .modulo, rest)
  | typed, .symbol ':' :: .symbol ':' :: rest => (storage? rest).map fun found => (.storage found.1, found.2)
  | _, _ => none

inductive Call where
  | unary (op : UnaryOp)
  | binary (op : BinaryOp)
  | distinct (op : DistinctOp)
  | cast

def Call.named? : String → Option Call
  | "FLOOR" => some (.unary .floor)
  | "MD5" => some (.unary .md5)
  | "FARM_FINGERPRINT" => some (.unary .fingerprint)
  | "COALESCE" => some (.binary .coalesce)
  | "NULLIF" => some (.binary .nullIf)
  | "TO_NUMBER" => some (.binary .toNumber)
  | "SUM" => some (.distinct .sum)
  | "COUNT" => some (.distinct .count)
  | "CAST" => some .cast
  | _ => none

inductive Stage where
  | level (l : Level)
  | after (l : Level) (a : Expression)
  | primary
  | branches

def Level.tighter : Level → Stage
  | conjunction => .level .comparison
  | comparison => .level .sum
  | sum => .level .product
  | product => .level .typed
  | typed => .primary

def expect (t : Token) : List Token → Option (List Token)
  | first :: rest => if first = t then some rest else none
  | [] => none

def isNumeral (word : String) : Bool := word.toList.head?.any Char.isDigit

def number? (word : String) : List Token → Option (Expression × List Token)
  | .symbol '.' :: .word fraction :: rest =>
    (decimal? (word.toList ++ '.' :: fraction.toList)).map fun d => (.number d.1 d.2, rest)
  | rest => (decimal? word.toList).map fun d => (.number d.1 d.2, rest)

def readFrom : Nat → Stage → List Token → Option (Expression × List Token)
  | 0, _, _ => none
  | n + 1, .level l, ts => do
    let (a, rest) ← readFrom n l.tighter ts
    readFrom n (.after l a) rest
  | n + 1, .after l a, ts =>
    match l.suffix? ts with
    | none => some (a, ts)
    | some (.known, rest) => readFrom n (.after l (.unary .isKnown a)) rest
    | some (.storage s, rest) => readFrom n (.after l (.cast a s)) rest
    | some (.operator op, rest) => do
      let (b, rest) ← readFrom n l.tighter rest
      readFrom n (.after l (.binary op a b)) rest
  | n + 1, .branches, ts =>
    match ts with
    | .word "WHEN" :: rest => do
      let (condition, rest) ← readFrom n (.level .conjunction) rest
      let rest ← expect (.word "THEN") rest
      let (result, rest) ← readFrom n (.level .conjunction) rest
      let (others, rest) ← readFrom n .branches rest
      some (.when condition result others, rest)
    | .word "ELSE" :: rest => do
      let (result, rest) ← readFrom n (.level .conjunction) rest
      some (result, ← expect (.word "END") rest)
    | .word "END" :: rest => some (.null, rest)
    | _ => none
  | n + 1, .primary, ts =>
    match ts with
    | .quoted s :: rest => some (.text s, rest)
    | .symbol '-' :: rest => do
      let (a, rest) ← readFrom n .primary rest
      some (.unary .minus a, rest)
    | .symbol '(' :: rest => do
      let (a, rest) ← readFrom n (.level .conjunction) rest
      some (a, ← expect (.symbol ')') rest)
    | .symbol c :: rest =>
      if c = Cell.value.mark then some (.cell .value, rest)
      else if c = Cell.key.mark then some (.cell .key, rest)
      else none
    | .word w :: rest =>
      if isNumeral w then number? w rest
      else if w = "NULL" then some (.null, rest)
      else if w = "CASE" then do
        let (branches, rest) ← readFrom n .branches rest
        some (.cases branches, rest)
      else do
        let call ← Call.named? w
        let rest ← expect (.symbol '(') rest
        match call with
        | .unary op => do
          let (a, rest) ← readFrom n (.level .conjunction) rest
          some (.unary op a, ← expect (.symbol ')') rest)
        | .binary op => do
          let (a, rest) ← readFrom n (.level .conjunction) rest
          let rest ← expect (.symbol ',') rest
          let (b, rest) ← readFrom n (.level .conjunction) rest
          some (.binary op a b, ← expect (.symbol ')') rest)
        | .distinct op => do
          let rest ← expect (.word "DISTINCT") rest
          let (a, rest) ← readFrom n (.level .conjunction) rest
          some (.distinct op a, ← expect (.symbol ')') rest)
        | .cast => do
          let (a, rest) ← readFrom n (.level .conjunction) rest
          let rest ← expect (.word "AS") rest
          let (storage, rest) ← storage? rest
          some (.cast a storage, ← expect (.symbol ')') rest)
    | [] => none

section
variable {l : Level} {n : Nat} {a b : Expression} {ts mid more rest : List Token}

/- A level reads what is tighter if no operator of its own follows. -/
theorem levelRead (inner : readFrom (n + 1) l.tighter ts = some (a, rest)) (ends : l.suffix? rest = none) :
    readFrom (n + 2) (.level l) ts = some (a, rest) := by
  rw [readFrom,inner]
  change readFrom (n + 1) (.after l a) rest = some (a, rest)
  rw [readFrom,ends]

theorem operatorRead {op : BinaryOp} (first : readFrom (n + 2) l.tighter ts = some (a, mid))
    (suffix : l.suffix? mid = some (.operator op, more)) (second : readFrom (n + 1) l.tighter more = some (b, rest))
    (ends : l.suffix? rest = none) : readFrom (n + 3) (.level l) ts = some (.binary op a b, rest) := by
  rw [readFrom,first]
  change readFrom (n + 2) (.after l a) mid = some (.binary op a b, rest)
  rw [readFrom,suffix]
  change (readFrom (n + 1) l.tighter more).bind _ = _
  rw [second]
  change readFrom (n + 1) (.after l (.binary op a b)) rest = some (.binary op a b, rest)
  rw [readFrom,ends]

end

/- The expression of a text; between two tokens the reader goes less than ten calls deep. -/
def read? (text : String) : Option Expression := do
  let ts ← Sql.lex .code [] text.toList
  let (e, rest) ← readFrom (10 * ts.length + 10) (.level .conjunction) ts
  if rest.isEmpty then some e else none

end Expression

inductive Datum where
  | null
  | number (q : ℚ)
  | text (s : String)
  | truth (b : Bool)
  deriving DecidableEq

structure Functions where
  md5 : Datum → String
  toNumber : String → String → ℚ
  fingerprint : String → ℚ
  string : Datum → String

def remainder (x y : ℚ) : ℚ := x - y * (if 0 ≤ x / y then ⌊x / y⌋ else ⌈x / y⌉)

section
variable (db : Functions)

def UnaryOp.apply : UnaryOp → Datum → Option Datum
  | .isKnown, x => some (.truth (x ≠ .null))
  | _, .null => some .null
  | .minus, .number q => some (.number (-q))
  | .floor, .number q => some (.number ⌊q⌋)
  | .md5, x => some (.text (db.md5 x))
  | .fingerprint, .text s => some (.number (db.fingerprint s))
  | _, _ => none

def BinaryOp.apply : BinaryOp → Datum → Datum → Option Datum
  | .coalesce, x, y => some (if x = .null then y else x)
  | .nullIf, x, y => some (if x = y then .null else x)
  | .and, .truth false, _ => some (.truth false)
  | .and, _, .truth false => some (.truth false)
  | _, .null, _ => some .null
  | _, _, .null => some .null
  | .and, .truth true, .truth true => some (.truth true)
  | .less, .number x, .number y => some (.truth (x < y))
  | .atLeast, .number x, .number y => some (.truth (y ≤ x))
  | .plus, .number x, .number y => some (.number (x + y))
  | .minus, .number x, .number y => some (.number (x - y))
  | .times, .number x, .number y => some (.number (x * y))
  | .over, .number x, .number y => if y = 0 then none else some (.number (x / y))
  | .modulo, .number x, .number y => if y = 0 then none else some (.number (remainder x y))
  | .toNumber, .text s, .text format => some (.number (db.toNumber s format))
  | _, _, _ => none

def Storage.apply : Storage → Datum → Option Datum
  | _, .null => some .null
  | .whole, .number q => some (.number (round q))
  | .real, .number q => some (.number q)
  | .string, x => some (.text (db.string x))
  | _, _ => none

def Datum.number? : Datum → Option ℚ
  | .number q => some q
  | _ => none

def DistinctOp.apply (op : DistinctOp) (data : List Datum) : Option Datum :=
  let known := (data.filter (· ≠ .null)).dedup
  match op with
  | .count => some (.number known.length)
  | .sum => if known.isEmpty then some .null else (known.mapM Datum.number?).map fun qs => .number qs.sum

namespace Expression

def eval (cell : Cell → Option Datum) (aggregate : DistinctOp → Expression → Option Datum) : Expression → Option Datum
  | .cell s => cell s
  | .number digits scale => some (.number (digits * 10 ^ scale))
  | .text s => some (.text s)
  | .null => some .null
  | .unary op a => do op.apply db (← eval cell aggregate a)
  | .binary op a b => do op.apply db (← eval cell aggregate a) (← eval cell aggregate b)
  | .cast a storage => do storage.apply db (← eval cell aggregate a)
  | .distinct op a => aggregate op a
  | .cases branches => eval cell aggregate branches
  | .when condition result rest => do
    match ← eval cell aggregate condition with
    | .truth true => eval cell aggregate result
    | .truth false => eval cell aggregate rest
    | .null => eval cell aggregate rest
    | _ => none

def rowValue (row : Cell → Datum) (e : Expression) : Option Datum :=
  e.eval db (fun s => some (row s)) fun _ _ => none

def groupValue (rows : List (Cell → Datum)) (e : Expression) : Option Datum :=
  e.eval db (fun _ => none) fun op a => (rows.mapM fun row => a.rowValue db row).bind op.apply

def branches : Expression → List (Expression × Expression)
  | .cases branches => branches.branches
  | .when condition result rest => (condition, result) :: rest.branches
  | _ => []

end Expression
end
end SemanticSql
