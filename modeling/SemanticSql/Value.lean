import SemanticSql.Dict
import SemanticSql.Number.Decimal

/-! Document values: what a JSON or YAML text holds. -/
namespace SemanticSql

inductive Value where
  | null
  | bool (b : Bool)
  | int (i : Int)
  | float (x : Binary64)
  | str (s : String)
  | list (items : List Value)
  | object (entries : List (String × Value))
  | mapping (entries : List (Value × Value))
  deriving Repr, Inhabited

namespace Value

def str? : Value → Option String
  | str s => some s
  | _ => none

def get? : Value → String → Option Value
  | object entries, key => Dict.get? entries key
  | mapping entries, key => (entries.find? fun e => e.1.str? == some key).map Prod.snd
  | _, _ => none

def isNull : Value → Bool
  | null => true
  | _ => false

def isObject : Value → Bool
  | object _ => true
  | _ => false

def bool? : Value → Option Bool
  | bool b => some b
  | _ => none

def list? : Value → Option (List Value)
  | list items => some items
  | _ => none

mutual

def depth : Value → Nat
  | list items => depthItems items + 1
  | object entries => depthEntries entries + 1
  | mapping entries => depthPairs entries + 1
  | _ => 0

def depthItems : List Value → Nat
  | [] => 0
  | v :: rest => max (depth v) (depthItems rest)

def depthEntries : List (String × Value) → Nat
  | [] => 0
  | (_, v) :: rest => max (depth v) (depthEntries rest)

def depthPairs : List (Value × Value) → Nat
  | [] => 0
  | (k, v) :: rest => max (max (depth k) (depth v)) (depthPairs rest)

end

def hexDigit (n : Nat) : Char := if n < 10 then Char.ofNat (48 + n) else Char.ofNat (87 + n)

def escapeChar (c : Char) : List Char :=
  if c = '"' then ['\\','"']
  else if c = '\\' then ['\\','\\']
  else if c = '\n' then ['\\','n']
  else if c = '\r' then ['\\','r']
  else if c = '\t' then ['\\','t']
  else if c = Char.ofNat 8 then ['\\','b']
  else if c = Char.ofNat 12 then ['\\','f']
  else if c.toNat < 32 then ['\\','u','0','0',hexDigit (c.toNat / 16),hexDigit (c.toNat % 16)]
  else [c]

def quoted (s : String) : String := String.ofList ('"' :: s.toList.flatMap escapeChar ++ ['"'])

mutual

/-- The value as JSON without blanks, members in the order of the object; a key that is no text stands for
itself. -/
def compact : Value → String
  | null => "null"
  | bool true => "true"
  | bool false => "false"
  | int i => toString i
  | float x => x.valueText
  | str s => quoted s
  | list items => "[" ++ String.intercalate "," (compactItems items) ++ "]"
  | object entries => "\x7b" ++ String.intercalate "," (compactEntries entries) ++ "\x7d"
  | mapping entries => "\x7b" ++ String.intercalate "," (compactPairs entries) ++ "\x7d"

def compactItems : List Value → List String
  | [] => []
  | v :: rest => compact v :: compactItems rest

def compactEntries : List (String × Value) → List String
  | [] => []
  | (k, v) :: rest => (quoted k ++ ":" ++ compact v) :: compactEntries rest

def compactPairs : List (Value × Value) → List String
  | [] => []
  | (k, v) :: rest => (compact k ++ ":" ++ compact v) :: compactPairs rest

end

def strings (names : List String) : Value := list (names.map str)

def orNull {α : Type} (f : α → Value) : Option α → Value
  | some a => f a
  | none => null

end Value

end SemanticSql
