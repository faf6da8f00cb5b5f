import SemanticSql.Dict
import SemanticSql.Template.Operand
import SemanticSql.Template.Token

/-!
Terms of a template: what outputs print and conditions test. Comparisons may be chained: `a < b < c` holds if both
comparisons hold.
-/
namespace SemanticSql.Template

inductive Term where
  | constant (x : Operand)
  | variable (name : String)
  | list (items : List Term)
  | mapping (entries : List (Term × Term))
  | member (t : Term) (name : String)
  | item (t key : Term)
  | slice (t start stop step : Term)
  | call (t : Term) (args : List Term)
  /-- An argument given by name. Nothing takes one, so it has no value. -/
  | named (name : String) (t : Term)
  | negative (t : Term)
  | not (t : Term)
  | or (a b : Term)
  | and (a b : Term)
  | compared (first : Term) (others : List (Comparison × Term))
  | binary (op : Operator) (a b : Term)
  | filtered (name : String) (t : Term) (args : List Term)
  | tested (name : String) (negated : Bool) (t : Term) (args : List Term)
  | choice (condition a : Term) (b : Option Term)

def comparison? : List Token → Option (Comparison × List Token)
  | .mark "==" :: rest => some (.equal, rest)
  | .mark "!=" :: rest => some (.notEqual, rest)
  | .mark "<" :: rest => some (.less, rest)
  | .mark "<=" :: rest => some (.lessOrEqual, rest)
  | .mark ">" :: rest => some (.greater, rest)
  | .mark ">=" :: rest => some (.greaterOrEqual, rest)
  | .name "in" :: rest => some (.within, rest)
  | .name "not" :: .name "in" :: rest => some (.notWithin, rest)
  | _ => none

def operator? (level : Nat) : List Token → Option (Operator × List Token)
  | .mark m :: rest =>
    match level, m with
    | 0, "+" => some (.add, rest)
    | 0, "-" => some (.subtract, rest)
    | 1, "~" => some (.concat, rest)
    | 2, "*" => some (.multiply, rest)
    | 2, "/" => some (.divide, rest)
    | 2, "//" => some (.wholeDivide, rest)
    | 2, "%" => some (.remainder, rest)
    | 3, "**" => some (.power, rest)
    | _, _ => none
  | _ => none

def constant? : String → Option Operand
  | "true" | "True" => some (.bool true)
  | "false" | "False" => some (.bool false)
  | "none" | "None" => some .none
  | _ => none

def joinedTexts : List Token → String × List Token
  | .text s :: rest =>
    let (others, rest) := joinedTexts rest
    (s ++ others, rest)
  | ts => ("", ts)

def startsArgument : List Token → Bool
  | .name s :: _ => s ≠ "and" && s ≠ "or" && s ≠ "else" && s ≠ "is"
  | .text _ :: _ | .number _ :: _ | .fraction _ :: _ => true
  | .mark m :: _ => m = "[" || m = "\x7b" || m = "+" || m = "-"
  | [] => false

def orNone (t : Option Term) : Term := t.getD (.constant .none)

mutual

/-- The first number bounds the steps, the second how deeply terms may still be nested. -/
def term? : Nat → Nat → List Token → Option (Term × List Token)
  | 0, _, _ => none
  | n + 1, depth, ts => do
    let (a, rest) ← either? n depth ts
    choices? n depth a rest

def choices? : Nat → Nat → Term → List Token → Option (Term × List Token)
  | 0, _, _, _ => none
  | n + 1, depth, a, ts =>
    match ts with
    | .name "if" :: rest => do
      let (condition, rest) ← either? n depth rest
      match rest with
      | .name "else" :: rest =>
        let (b, rest) ← term? n depth rest
        choices? n depth (.choice condition a (some b)) rest
      | rest => choices? n depth (.choice condition a none) rest
    | ts => some (a, ts)

def either? : Nat → Nat → List Token → Option (Term × List Token)
  | 0, _, _ => none
  | n + 1, depth, ts => do
    let (a, rest) ← both? n depth ts
    moreEither? n depth a rest

def moreEither? : Nat → Nat → Term → List Token → Option (Term × List Token)
  | 0, _, _, _ => none
  | n + 1, depth, a, ts =>
    match ts with
    | .name "or" :: rest => do
      let (b, rest) ← both? n depth rest
      moreEither? n depth (.or a b) rest
    | ts => some (a, ts)

def both? : Nat → Nat → List Token → Option (Term × List Token)
  | 0, _, _ => none
  | n + 1, depth, ts => do
    let (a, rest) ← negated? n depth ts
    moreBoth? n depth a rest

def moreBoth? : Nat → Nat → Term → List Token → Option (Term × List Token)
  | 0, _, _, _ => none
  | n + 1, depth, a, ts =>
    match ts with
    | .name "and" :: rest => do
      let (b, rest) ← negated? n depth rest
      moreBoth? n depth (.and a b) rest
    | ts => some (a, ts)

def negated? : Nat → Nat → List Token → Option (Term × List Token)
  | 0, _, _ => none
  | n + 1, depth, ts =>
    match ts with
    | .name "not" :: rest => do
      let (t, rest) ← negated? n depth rest
      some (.not t, rest)
    | ts => do
      let (first, rest) ← level? n depth 0 ts
      let (others, rest) ← comparisons? n depth rest
      some (if others.isEmpty then first else .compared first others, rest)

def comparisons? : Nat → Nat → List Token → Option (List (Comparison × Term) × List Token)
  | 0, _, _ => none
  | n + 1, depth, ts =>
    match comparison? ts with
    | none => if ts.head? = some (.name "not") then none else some ([], ts)
    | some (c, rest) => do
      let (t, rest) ← level? n depth 0 rest
      let (others, rest) ← comparisons? n depth rest
      some ((c, t) :: others, rest)

def level? : Nat → Nat → Nat → List Token → Option (Term × List Token)
  | 0, _, _, _ => none
  | n + 1, depth, level, ts =>
    if level = 4 then do
      let (t, rest) ← signed? n depth ts
      let (t, rest) ← members? n depth t rest
      filters? n depth t rest
    else do
      let (t, rest) ← level? n depth (level + 1) ts
      operators? n depth level t rest

def operators? : Nat → Nat → Nat → Term → List Token → Option (Term × List Token)
  | 0, _, _, _, _ => none
  | n + 1, depth, level, left, ts =>
    match operator? level ts with
    | none => some (left, ts)
    | some (op, rest) => do
      let (right, rest) ← level? n depth (level + 1) rest
      operators? n depth level (.binary op left right) rest

def signed? : Nat → Nat → List Token → Option (Term × List Token)
  | 0, _, _ => none
  | n + 1, depth, ts =>
    match ts with
    | .mark "-" :: rest => do
      let (t, rest) ← signed? n depth rest
      some (.negative t, rest)
    | ts => primary? n depth ts

def primary? : Nat → Nat → List Token → Option (Term × List Token)
  | 0, _, _ => none
  | _, 0, _ => none
  | n + 1, depth + 1, ts =>
    match ts with
    | .name s :: rest =>
      match constant? s with
      | some x => some (.constant x, rest)
      | none => some (.variable s, rest)
    | .number k :: rest => some (.constant (.ofNat k), rest)
    | .fraction x :: rest => some (.constant (.float x), rest)
    | .text _ :: _ =>
      let (s, rest) := joinedTexts ts
      some (.constant (.str s), rest)
    | .mark "(" :: .mark ")" :: rest => some (.list [], rest)
    | .mark "(" :: rest => do
      let (t, rest) ← term? n depth rest
      match rest with
      | .mark ")" :: rest => some (t, rest)
      | .mark "," :: rest =>
        let (others, rest) ← items? n depth ")" rest
        some (.list (t :: others), rest)
      | _ => none
    | .mark "[" :: rest => do
      let (items, rest) ← items? n depth "]" rest
      some (.list items, rest)
    | .mark "\x7b" :: rest => do
      let (entries, rest) ← entries? n depth rest
      some (.mapping entries, rest)
    | _ => none

def items? : Nat → Nat → String → List Token → Option (List Term × List Token)
  | 0, _, _, _ => none
  | n + 1, depth, close, ts =>
    if ts.head? = some (.mark close) then some ([], ts.tail)
    else do
      let (first, rest) ← term? n depth ts
      match rest with
      | .mark m :: rest =>
        if m = close then some ([first], rest)
        else if m = "," then do
          let (others, rest) ← items? n depth close rest
          some (first :: others, rest)
        else none
      | _ => none

def entries? : Nat → Nat → List Token → Option (List (Term × Term) × List Token)
  | 0, _, _ => none
  | n + 1, depth, ts =>
    if ts.head? = some (.mark "\x7d") then some ([], ts.tail)
    else do
      let (key, rest) ← term? n depth ts
      match rest with
      | .mark ":" :: rest =>
        let (t, rest) ← term? n depth rest
        match rest with
        | .mark "\x7d" :: rest => some ([(key, t)], rest)
        | .mark "," :: rest =>
          let (others, rest) ← entries? n depth rest
          some ((key, t) :: others, rest)
        | _ => none
      | _ => none

def arguments? : Nat → Nat → Bool → List Token → Option (List Term × List Token)
  | 0, _, _, _ => none
  | n + 1, depth, named, ts =>
    if ts.head? = some (.mark ")") then some ([], ts.tail)
    else do
      let (first, rest) ← term? n depth ts
      let (first, named, rest) ← match first, rest with
        | .variable s, .mark "=" :: rest => do
          let (t, rest) ← either? n depth rest
          some (.named s t, true, rest)
        | first, rest => if named then none else some (first, false, rest)
      match rest with
      | .mark ")" :: rest => some ([first], rest)
      | .mark "," :: rest =>
        let (others, rest) ← arguments? n depth named rest
        some (first :: others, rest)
      | _ => none

def bound? : Nat → Nat → List Token → Option (Option Term × List Token)
  | 0, _, _ => none
  | n + 1, depth, ts =>
    match ts with
    | .mark ":" :: _ | .mark "]" :: _ => some (none, ts)
    | ts => do
      let (t, rest) ← term? n depth ts
      some (some t, rest)

def members? : Nat → Nat → Term → List Token → Option (Term × List Token)
  | 0, _, _, _ => none
  | n + 1, depth, t, ts =>
    match ts with
    | .mark "." :: .name s :: rest => members? n depth (.member t s) rest
    | .mark "." :: .number k :: rest => members? n depth (.item t (.constant (.ofNat k))) rest
    | .mark "." :: _ => none
    | .mark "[" :: rest => do
      let (start, rest) ← bound? n depth rest
      match start, rest with
      | some key, .mark "]" :: rest => members? n depth (.item t key) rest
      | start, .mark ":" :: rest =>
        let (stop, rest) ← bound? n depth rest
        let (step, rest) ← match rest with
          | .mark ":" :: rest => bound? n depth rest
          | rest => some (none, rest)
        match rest with
        | .mark "]" :: rest => members? n depth (.slice t (orNone start) (orNone stop) (orNone step)) rest
        | _ => none
      | _, _ => none
    | .mark "(" :: rest => do
      let (args, rest) ← arguments? n depth false rest
      members? n depth (.call t args) rest
    | ts => some (t, ts)

def filters? : Nat → Nat → Term → List Token → Option (Term × List Token)
  | 0, _, _, _ => none
  | n + 1, depth, t, ts =>
    match ts with
    | .mark "|" :: .name s :: .mark "(" :: rest => do
      let (args, rest) ← arguments? n depth false rest
      filters? n depth (.filtered s t args) rest
    | .mark "|" :: .name s :: rest => filters? n depth (.filtered s t []) rest
    | .mark "|" :: _ => none
    | .name "is" :: .name "not" :: .name s :: rest => do
      let (args, rest) ← testArguments? n depth rest
      filters? n depth (.tested s true t args) rest
    | .name "is" :: .name s :: rest => do
      let (args, rest) ← testArguments? n depth rest
      filters? n depth (.tested s false t args) rest
    | .name "is" :: _ => none
    | ts => some (t, ts)

def testArguments? : Nat → Nat → List Token → Option (List Term × List Token)
  | 0, _, _ => none
  | n + 1, depth, ts =>
    match ts with
    | .mark "(" :: rest => arguments? n depth false rest
    | ts =>
      if startsArgument ts then do
        let (t, rest) ← signed? n depth ts
        let (t, rest) ← members? n depth t rest
        some ([t], rest)
      else some ([], ts)

end

/-- A term that uses up all tokens. The bound on steps is generous: each token opens at most a dozen levels. -/
def Term.parse? (depth : Nat) (ts : List Token) : Option Term :=
  match term? (16 * (ts.length + 1)) depth ts with
  | some (t, []) => some t
  | _ => none

mutual

def Term.eval? (bindings : Dict Operand) : Term → Option Operand
  | .constant x => some x
  | .variable name => some ((bindings.get? name).getD .undefined)
  | .list items => (evalItems? bindings items).map .list
  | .mapping entries => (evalEntries? bindings entries).map .ofEntries
  | .member t name => do
    let x ← t.eval? bindings
    x.member? (.str name)
  | .item t key => do
    let x ← t.eval? bindings
    let k ← key.eval? bindings
    x.member? k
  | .slice t start stop step => do
    let x ← t.eval? bindings
    let first ← start.eval? bindings
    let last ← stop.eval? bindings
    let stride ← step.eval? bindings
    x.slice? first last stride
  | .call .. => none
  | .named .. => none
  | .negative t => do
    let x ← t.eval? bindings
    x.negate?
  | .not t => do
    let x ← t.eval? bindings
    some (.bool !x.truthy)
  | .or a b => do
    let x ← a.eval? bindings
    if x.truthy then some x else b.eval? bindings
  | .and a b => do
    let x ← a.eval? bindings
    if x.truthy then b.eval? bindings else some x
  | .compared first others => do
    let x ← first.eval? bindings
    let r ← evalChain? bindings x others
    some (.bool r)
  | .binary op a b => do
    let x ← a.eval? bindings
    let y ← b.eval? bindings
    x.combine? op y
  | .filtered name t args => do
    let x ← t.eval? bindings
    let ys ← evalItems? bindings args
    x.filter? name ys
  | .tested name negated t args => do
    let x ← t.eval? bindings
    let ys ← evalItems? bindings args
    let r ← x.test? name ys
    some (.bool (r != negated))
  | .choice condition a b => do
    let c ← condition.eval? bindings
    if c.truthy then a.eval? bindings
    else
      match b with
      | some b => b.eval? bindings
      | none => some .undefined

def evalItems? (bindings : Dict Operand) : List Term → Option (List Operand)
  | [] => some []
  | t :: rest => do
    let x ← t.eval? bindings
    let xs ← evalItems? bindings rest
    some (x :: xs)

def evalEntries? (bindings : Dict Operand) : List (Term × Term) → Option (List (Operand × Operand))
  | [] => some []
  | (key, t) :: rest => do
    let k ← key.eval? bindings
    let x ← t.eval? bindings
    let others ← evalEntries? bindings rest
    some ((k, x) :: others)

def evalChain? (bindings : Dict Operand) (x : Operand) : List (Comparison × Term) → Option Bool
  | [] => some true
  | (c, t) :: rest => do
    let y ← t.eval? bindings
    if ← x.holds? c y then evalChain? bindings y rest else some false

end

end SemanticSql.Template
