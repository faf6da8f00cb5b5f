import SemanticSql.Number.Arithmetic
import SemanticSql.Text.Case
import SemanticSql.Text.Cut
import SemanticSql.Text.Quoted

/-! What the terms of a template stand for, and what can be done with it. -/
namespace SemanticSql.Template

inductive Operand where
  | undefined
  | none
  | bool (b : Bool)
  | int (i : Int)
  | wide (n : Nat)
  | float (x : Binary64)
  | str (s : String)
  | list (items : List Operand)
  | mapping (entries : List (Operand × Operand))
  deriving Repr, Inhabited

inductive Kind where
  | undefined | none | bool | number | text | list | mapping
  deriving DecidableEq, Repr

def Kind.rank : Kind → Nat
  | undefined => 0
  | none => 1
  | bool => 2
  | number => 3
  | text => 4
  | list => 5
  | mapping => 6

inductive Comparison where
  | equal | notEqual | less | lessOrEqual | greater | greaterOrEqual | within | notWithin
  deriving DecidableEq, Repr

inductive Operator where
  | add | subtract | concat | multiply | divide | wholeDivide | remainder | power
  deriving DecidableEq, Repr

namespace Operand

def ofNat (n : Nat) : Operand := if n < twoTo 64 then int n else wide n

def truthy : Operand → Bool
  | undefined => false
  | none => false
  | bool b => b
  | int i => i ≠ 0
  | wide _ => true
  | float x => !x.isZero
  | str s => !s.isEmpty
  | list items => !items.isEmpty
  | mapping entries => !entries.isEmpty

mutual

def itemText : Operand → String
  | undefined => "undefined"
  | none => "none"
  | bool true => "true"
  | bool false => "false"
  | int i => toString i
  | wide n => toString n
  | float x => x.itemText
  | str s => Text.shown s
  | list items => "[" ++ ", ".intercalate (itemTexts items) ++ "]"
  | mapping entries => "\x7b" ++ ", ".intercalate (entryTexts entries) ++ "\x7d"

def itemTexts : List Operand → List String
  | [] => []
  | x :: rest => itemText x :: itemTexts rest

def entryTexts : List (Operand × Operand) → List String
  | [] => []
  | (k, x) :: rest => (itemText k ++ ": " ++ itemText x) :: entryTexts rest

end

def fractionText (x : Binary64) : String :=
  match x.whole? with
  | some _ => x.plainText ++ ".0"
  | .none => x.plainText

def text : Operand → String
  | undefined => ""
  | none => "None"
  | bool true => "True"
  | bool false => "False"
  | float x => fractionText x
  | str s => s
  | x => itemText x

/-! Numbers: truth values count as zero and one. -/

def isSigned (i : Int) : Bool := -Int.ofNat (twoTo 127) ≤ i && i < Int.ofNat (twoTo 127)

def whole? : Operand → Option Int
  | bool b => some (if b then 1 else 0)
  | int i => some i
  | wide n => if isSigned n then some n else .none
  | _ => .none

/-- The binary fraction nearest to an operand; if it has to be exact, a whole number that is none has none. -/
def fraction? (exact : Bool) : Operand → Option Binary64
  | float x => some x
  | bool b => some (Binary64.ofNat (if b then 1 else 0))
  | int i => nearest i
  | wide n => nearest n
  | _ => .none
where
  nearest (i : Int) : Option Binary64 :=
    let x := Binary64.ofInt i
    if exact && x.whole? != some i then .none else some x

inductive Numbers where
  | whole (a b : Int)
  | fractions (a b : Binary64)

def withSign (n : Nat) : Int := if isSigned n then n else Int.ofNat n - Int.ofNat (twoTo 128)

def numbers? (exact : Bool) : Operand → Operand → Option Numbers
  | wide m, wide n => some (.whole (withSign m) (withSign n))
  | float x, b => (fraction? exact b).map (.fractions x)
  | a, float y => (fraction? exact a).map fun x => .fractions x y
  | a, b => do
    let i ← whole? a
    let j ← whole? b
    some (.whole i j)

def ofWhole? (i : Int) : Option Operand := if isSigned i then some (int i) else .none

/-! Equality and order. -/

mutual

def same : Operand → Operand → Bool
  | undefined, undefined => true
  | none, none => true
  | str a, str b => a == b
  | list a, list b => sameItems a b
  | mapping a, mapping b => sameEntries a b
  | a, b =>
    match numbers? true a b with
    | some (.whole i j) => i == j
    | some (.fractions x y) => x.equals y
    | .none => false

def sameItems : List Operand → List Operand → Bool
  | [], [] => true
  | a :: as, b :: bs => same a b && sameItems as bs
  | _, _ => false

def sameEntries : List (Operand × Operand) → List (Operand × Operand) → Bool
  | [], [] => true
  | (k, a) :: as, (l, b) :: bs => same k l && same a b && sameEntries as bs
  | _, _ => false

end

def kind : Operand → Kind
  | undefined => .undefined
  | none => .none
  | bool _ => .bool
  | int _ | wide _ | float _ => .number
  | str _ => .text
  | list _ => .list
  | mapping _ => .mapping

open Binary64 (ordering)

def textOrder (a b : String) : Ordering := ordering (a < b) (a = b)

def kindOrder (a b : Operand) : Ordering := ordering (a.kind.rank < b.kind.rank) (a.kind = b.kind)

mutual

/-- The order of all values. Values that are equal but of different kinds, and values that have no order, are ordered
by kind. -/
def order : Operand → Operand → Ordering
  | str a, str b => textOrder a b
  | list a, list b => orderItems a b
  | mapping a, mapping b => orderEntries a b
  | a, b =>
    match numbers? true a b with
    | some (.whole i j) => (ordering (i < j) (i = j)).then (kindOrder a b)
    | some (.fractions x y) => (x.order y).then (kindOrder a b)
    | .none => kindOrder a b

def orderItems : List Operand → List Operand → Ordering
  | [], [] => .eq
  | [], _ :: _ => .lt
  | _ :: _, [] => .gt
  | a :: as, b :: bs => (order a b).then (orderItems as bs)

def orderEntries : List (Operand × Operand) → List (Operand × Operand) → Ordering
  | [], [] => .eq
  | [], _ :: _ => .lt
  | _ :: _, [] => .gt
  | (k, a) :: as, (l, b) :: bs => ((order k l).then (order a b)).then (orderEntries as bs)

end

def valueAt? (entries : List (Operand × Operand)) (key : Operand) : Option Operand :=
  (entries.find? fun e => order e.1 key == .eq).map Prod.snd

def putEntry (key x : Operand) : List (Operand × Operand) → List (Operand × Operand)
  | [] => [(key, x)]
  | e :: rest =>
    match order key e.1 with
    | .lt => (key, x) :: e :: rest
    | .eq => (e.1, x) :: rest
    | .gt => e :: putEntry key x rest

def ofEntries (entries : List (Operand × Operand)) : Operand :=
  mapping (entries.foldl (fun done e => putEntry e.1 e.2 done) [])

def within? (x container : Operand) : Option Bool :=
  match container with
  | undefined => some false
  | list items => some (items.any fun item => same item x)
  | str s => some (Text.occurs x.text s)
  | mapping entries => some (valueAt? entries x).isSome
  | _ => .none

def holds? (a : Operand) (c : Comparison) (b : Operand) : Option Bool :=
  match c with
  | .equal => some (same a b)
  | .notEqual => some (!same a b)
  | .less => some (order a b == .lt)
  | .lessOrEqual => some (order a b != .gt)
  | .greater => some (order a b == .gt)
  | .greaterOrEqual => some (order a b != .lt)
  | .within => within? a b
  | .notWithin => (within? a b).map (!·)

/-! Members. -/

def int64? (x : Operand) : Option Int := do
  let i ← match x with
    | float x => x.whole?
    | x => whole? x
  if -Int.ofNat (twoTo 63) ≤ i ∧ i < Int.ofNat (twoTo 63) then some i else .none

def position? (size : Nat) (key : Operand) : Option Nat := do
  let i ← int64? key
  if 0 ≤ i then some i.toNat else if i.natAbs ≤ size then some (size - i.natAbs) else .none

/-- A member of a value. An undefined name has none to ask for; of other values a member that is not there is
undefined. -/
def member? (x key : Operand) : Option Operand :=
  match x with
  | undefined => .none
  | mapping entries => some ((valueAt? entries key).getD undefined)
  | list items => some (((position? items.length key).bind (items[·]?)).getD undefined)
  | str s =>
    let cs := s.toList
    some (((position? cs.length key).bind (cs[·]?)).elim undefined fun c => str (String.singleton c))
  | _ => some undefined

def bound? (size default : Nat) (offset : Int) : Operand → Option Nat
  | none => some default
  | x => (int64? x).map fun i => min size ((if 0 ≤ i then i else i + Int.ofNat size) + offset).toNat

def everyNth {α : Type} (step : Nat) : Nat → List α → List α
  | _, [] => []
  | 0, a :: rest => a :: everyNth step (step - 1) rest
  | wait + 1, _ :: rest => everyNth step wait rest

def sliceItems? {α : Type} (items : List α) (start stop step : Operand) : Option (List α) := do
  let stride ← match step with
    | none => some 1
    | step => int64? step
  let size := items.length
  if 0 < stride then
    let first ← bound? size 0 0 start
    let last ← bound? size size 0 stop
    some (everyNth stride.toNat 0 ((items.take last).drop first))
  else if stride < 0 then
    let last ← bound? size size 1 start
    let first ← bound? size 0 1 stop
    some (everyNth stride.natAbs 0 ((items.take last).drop first).reverse)
  else .none

def slice? (x start stop step : Operand) : Option Operand :=
  match x with
  | undefined => some (list [])
  | none => some (list [])
  | str s => (sliceItems? s.toList start stop step).map fun cs => str (String.ofList cs)
  | list items => (sliceItems? items start stop step).map list
  | _ => .none

/-! Operators. -/

def numeric? (a b : Operand) (onWhole : Int → Int → Option Int) (onFractions : Binary64 → Binary64 → Option Binary64) :
    Option Operand :=
  match numbers? false a b with
  | some (.whole i j) => (onWhole i j).bind ofWhole?
  | some (.fractions x y) => (onFractions x y).map float
  | .none => .none

def add? : Operand → Operand → Option Operand
  | str a, str b => some (str (a ++ b))
  | list a, list b => some (list (a ++ b))
  | a, b => numeric? a b (fun i j => some (i + j)) (fun x y => some (x.add y))

def divide? (a b : Operand) : Option Operand := do
  let x ← fraction? false a
  let y ← fraction? false b
  some (float (x.divide y))

def wholePower? (i j : Int) : Option Int :=
  if j < 0 then .none
  else if i = 0 ∨ i = 1 then some (if j = 0 then 1 else i)
  else if i = -1 then some (if j % 2 = 0 then 1 else -1)
  else if 128 < j then .none
  else some ((List.replicate j.toNat i).foldl (· * ·) 1)

/-- An operator on two values. Whole quotients and remainders leave no negative rest, and are not defined for binary
fractions; neither is a power. -/
def combine? (a : Operand) (op : Operator) (b : Operand) : Option Operand :=
  match op with
  | .add => add? a b
  | .subtract => numeric? a b (fun i j => some (i - j)) (fun x y => some (x.subtract y))
  | .concat => some (str (a.text ++ b.text))
  | .multiply => numeric? a b (fun i j => some (i * j)) (fun x y => some (x.multiply y))
  | .divide => divide? a b
  | .wholeDivide => numeric? a b (fun i j => if j = 0 then .none else some (i / j)) (fun _ _ => .none)
  | .remainder => numeric? a b (fun i j => if j = 0 then .none else some (i % j)) (fun _ _ => .none)
  | .power => numeric? a b wholePower? (fun _ _ => .none)

def negate? : Operand → Option Operand
  | int i => ofWhole? (-i)
  | wide n => if n = twoTo 127 then some (int (-Int.ofNat n)) else (whole? (wide n)).bind fun i => ofWhole? (-i)
  | float x => some (float x.neg)
  | _ => .none

def filter? (name : String) (x : Operand) (args : List Operand) : Option Operand :=
  match name, args with
  | "upper", [] => some (str (Text.upper x.text))
  | "lower", [] => some (str (Text.lower x.text))
  | "trim", [] => some (str (Text.trim x.text))
  | "string", [] => some (str x.text)
  | "length", [] | "count", [] =>
    match x with
    | str s => some (int s.length)
    | list items => some (int items.length)
    | mapping entries => some (int entries.length)
    | _ => .none
  | "default", _ | "d", _ => orElse? args
  | _, _ => .none
where
  /-- Another value for an undefined one, and if asked for also for one that does not count as true. -/
  orElse? : List Operand → Option Operand
    | [] => some (instead false (str ""))
    | [other] => some (instead false other)
    | [other,bool lax] => some (instead lax other)
    | [other,none] | [other,undefined] => some (instead false other)
    | _ => .none
  instead (lax : Bool) (other : Operand) : Operand :=
    match x with
    | undefined => other
    | x => if lax && !x.truthy then other else x

def test? (name : String) (x : Operand) (args : List Operand) : Option Bool :=
  match name, args with
  | "defined", [] => some (x.kind ≠ .undefined)
  | "undefined", [] => some (x.kind = .undefined)
  | "none", [] => some (x.kind = .none)
  | "boolean", [] => some (x.kind = .bool)
  | "number", [] => some (x.kind = .number)
  | "string", [] => some (x.kind = .text)
  | "sequence", [] => some (x.kind = .list)
  | "mapping", [] => some (x.kind = .mapping)
  | "eq", [y] | "equalto", [y] => holds? x .equal y
  | "ne", [y] => holds? x .notEqual y
  | "lt", [y] | "lessthan", [y] => holds? x .less y
  | "le", [y] => holds? x .lessOrEqual y
  | "gt", [y] | "greaterthan", [y] => holds? x .greater y
  | "ge", [y] => holds? x .greaterOrEqual y
  | "in", [y] => holds? x .within y
  | _, _ => .none

end Operand

end SemanticSql.Template
