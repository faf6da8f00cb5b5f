import SemanticSql.Value

/-! Reading typed data from document values. Records are objects; where null is refused they may also be lists that
give their members in the declared order, and a key may be the position of a member in that order. -/
namespace SemanticSql.Document

/-- What null means where a list, a mapping or a record is expected. -/
inductive Nulls where
  | empty
  | refused
  deriving DecidableEq, Repr

inductive Source where
  | members (entries : Dict Value)
  | items (vs : List Value)
  | keyed (entries : List (Value × Value))

namespace Source

def unreadable : Value := .mapping [(.null, .null)]

def isKey (position : Nat) (key : String) : Value → Bool
  | .str s => s = key
  | .int i => i = Int.ofNat position
  | _ => false

/-- The value at a name and position. A member that is given both ways cannot be read. -/
def slot? (s : Source) (position : Nat) (key : String) : Option Value :=
  match s with
  | members entries => entries.get? key
  | items vs => vs[position]?
  | keyed entries =>
    match entries.filter fun e => isKey position key e.1 with
    | [] => none
    | [e] => some e.2
    | _ => some unreadable

/-- Whether members may be left out, as in an object, or only at the end and only with a default. -/
def isNamed : Source → Bool
  | members _ => true
  | items _ => false
  | keyed _ => true

variable {α : Type}

def required (s : Source) (position : Nat) (key : String) (read : Value → Option α) : Option α :=
  (s.slot? position key).bind read

def withDefault (s : Source) (position : Nat) (key : String) (default : α) (read : Value → Option α) : Option α :=
  match s.slot? position key with
  | none => some default
  | some v => read v

def orNull (read : Value → Option α) : Value → Option (Option α)
  | .null => some none
  | v => (read v).map some

def optional (s : Source) (position : Nat) (key : String) (read : Value → Option α) : Option (Option α) :=
  match s.slot? position key with
  | none => if s.isNamed then some none else none
  | some v => orNull read v

def open? (s : Source) (position : Nat) (key : String) (read : Value → Option α) : Option (Option α) :=
  match s.slot? position key with
  | none => some none
  | some v => orNull read v

end Source

variable {α : Type}

def isRecordKey : Value → Bool
  | .str _ => true
  | .int i => 0 ≤ i
  | _ => false

def record (nulls : Nulls) (count : Nat) (read : Source → Option α) : Value → Option α
  | .object entries => read (.members entries)
  | .mapping entries =>
    if nulls = .refused ∧ entries.all (fun e => isRecordKey e.1) then read (.keyed entries) else none
  | .list items => if nulls = .refused ∧ items.length ≤ count then read (.items items) else none
  | .null => if nulls = .empty then read (.members []) else none
  | _ => none

def text : Value → Option String := Value.str?

def truth : Value → Option Bool := Value.bool?

def number : Value → Option Binary64
  | .int i => some (Binary64.ofInt i)
  | .float x => some x
  | _ => none

/-- A name of an enumeration. Where null is refused, an object with the name and null also stands for it. -/
def named (nulls : Nulls) (ofName? : String → Option α) : Value → Option α
  | .str s => ofName? s
  | .object [(s, .null)] => if nulls = .refused then ofName? s else none
  | _ => none

def readAll (read : Value → Option α) : List Value → Option (List α)
  | [] => some []
  | v :: rest => do
    let first ← read v
    let others ← readAll read rest
    some (first :: others)

def listOf (nulls : Nulls) (read : Value → Option α) : Value → Option (List α)
  | .list items => readAll read items
  | .null => if nulls = .empty then some [] else none
  | _ => none

def readMembers (read : Value → Option α) : Dict Value → Option (Dict α)
  | [] => some []
  | (k, v) :: rest => do
    let first ← read v
    let others ← readMembers read rest
    some ((k, first) :: others)

def dictOf (nulls : Nulls) (read : Value → Option α) : Value → Option (Dict α)
  | .object entries => readMembers read entries
  | .null => if nulls = .empty then some [] else none
  | _ => none

def object (entries : List (String × Value)) : Value := .object (Dict.ofList entries)

def writeList (write : α → Value) (items : List α) : Value := .list (items.map write)

def writeDict (write : α → Value) (entries : Dict α) : Value := .object (entries.map fun e => (e.1, write e.2))

def writeText : Option String → Value := Value.orNull .str

end SemanticSql.Document
