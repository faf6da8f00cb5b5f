import SemanticSql.Value.Yaml.Scalar
import SemanticSql.Value.Yaml.Token

/-! Reading YAML text into a value. -/
namespace SemanticSql.Yaml

abbrev Members := List (Value × Value)

def addMember? (members : Members) (key value : Value) : Option Members :=
  if members.any fun m => m.1.compact == key.compact then none else some ((key, value) :: members)

def ofMembers (members : Members) : Value :=
  match members.mapM fun m => m.1.str?.map fun key => (key, m.2) with
  | some entries => .object (Dict.ofList entries)
  | none => .mapping members.reverse

/-- Where a node stands: anywhere in a block; under a key or behind its colon, where the dashes of a list may stand
in the column of the key; or between brackets. -/
inductive Place where
  | block | member | flow
  deriving DecidableEq, Repr

def endsMember : List Token → Bool
  | .key :: _ | .colon :: _ | .blockEnd :: _ => true
  | _ => false

def endsItem : List Token → Bool
  | .dash :: _ | .blockEnd :: _ => true
  | _ => false

def endsFlow (close : Token) : List Token → Bool
  | .comma :: _ => true
  | t :: _ => t = close
  | [] => false

mutual

/-- A node and the tokens behind it. The first number bounds the steps, the second the collections that may still be
opened inside one another. -/
def node? : Nat → Nat → Place → List Token → Option (Value × List Token)
  | 0, _, _, _ => none
  | n + 1, depth, place, ts =>
    match ts with
    | .text s plain :: rest => (if plain then plainValue? s else some (.str s)).map fun v => (v, rest)
    | t :: rest =>
      match depth with
      | 0 => none
      | depth + 1 =>
        if t = .dash ∧ place = .member then alignedItems? n depth [] ts
        else if t = .flowList then flowItems? n depth [] true rest
        else if t = .flowMapping then flowMembers? n depth [] true rest
        else if t = .blockList ∧ place ≠ .flow then blockItems? n depth [] rest
        else if t = .blockMapping ∧ place ≠ .flow then blockMembers? n depth [] rest
        else none
    | [] => none

def nodeOrNull? : Nat → Nat → Place → Bool → List Token → Option (Value × List Token)
  | 0, _, _, _, _ => none
  | n + 1, depth, place, missing, ts => if missing then some (.null, ts) else node? n depth place ts

def blockItems? : Nat → Nat → List Value → List Token → Option (Value × List Token)
  | 0, _, _, _ => none
  | n + 1, depth, items, ts =>
    match ts with
    | .dash :: rest => do
      let (v, rest) ← nodeOrNull? n depth .block (endsItem rest) rest
      blockItems? n depth (v :: items) rest
    | .blockEnd :: rest => some (.list items.reverse, rest)
    | _ => none

def alignedItems? : Nat → Nat → List Value → List Token → Option (Value × List Token)
  | 0, _, _, _ => none
  | n + 1, depth, items, ts =>
    match ts with
    | .dash :: rest => do
      let (v, rest) ← nodeOrNull? n depth .block (endsItem rest || endsMember rest) rest
      alignedItems? n depth (v :: items) rest
    | _ => some (.list items.reverse, ts)

def blockMembers? : Nat → Nat → Members → List Token → Option (Value × List Token)
  | 0, _, _, _ => none
  | n + 1, depth, members, ts =>
    match ts with
    | .key :: rest => do
      let (key, rest) ← nodeOrNull? n depth .member (endsMember rest) rest
      let (v, rest) ← match rest with
        | .colon :: rest => nodeOrNull? n depth .member (endsMember rest) rest
        | rest => some (.null, rest)
      let members ← addMember? members key v
      blockMembers? n depth members rest
    | .blockEnd :: rest => some (ofMembers members, rest)
    | _ => none

def flowMember? : Nat → Nat → Token → List Token → Option (Value × Value × List Token)
  | 0, _, _, _ => none
  | n + 1, depth, close, ts => do
    let (key, rest) ← nodeOrNull? n depth .flow (endsFlow close ts || ts.head? = some .colon) ts
    let (v, rest) ← match rest with
      | .colon :: rest => nodeOrNull? n depth .flow (endsFlow close rest) rest
      | rest => some (.null, rest)
    some (key, v, rest)

def flowItems? : Nat → Nat → List Value → Bool → List Token → Option (Value × List Token)
  | 0, _, _, _, _ => none
  | n + 1, depth, items, first, ts => do
    if ts.head? = some .flowListEnd then some (.list items.reverse, ts.tail)
    else
      let ts ← if first then some ts else if ts.head? = some .comma then some ts.tail else none
      match ts with
      | .flowListEnd :: rest => some (.list items.reverse, rest)
      | .key :: rest =>
        match depth with
        | 0 => none
        | inner + 1 =>
          let (key, v, rest) ← flowMember? n inner .flowListEnd rest
          flowItems? n depth (ofMembers [(key, v)] :: items) false rest
      | ts =>
        let (v, rest) ← node? n depth .flow ts
        flowItems? n depth (v :: items) false rest

def flowMembers? : Nat → Nat → Members → Bool → List Token → Option (Value × List Token)
  | 0, _, _, _, _ => none
  | n + 1, depth, members, first, ts => do
    if ts.head? = some .flowMappingEnd then some (ofMembers members, ts.tail)
    else
      let ts ← if first then some ts else if ts.head? = some .comma then some ts.tail else none
      match ts with
      | .flowMappingEnd :: rest => some (ofMembers members, rest)
      | .key :: rest =>
        let (key, v, rest) ← flowMember? n depth .flowMappingEnd rest
        let members ← addMember? members key v
        flowMembers? n depth members false rest
      | ts =>
        let (key, rest) ← node? n depth .flow ts
        let members ← addMember? members key .null
        flowMembers? n depth members false rest

end

def document? (ts : List Token) : Option Value := do
  let steps := 4 * ts.length + 8
  let (v, rest) ← match ts with
    | [] => some (.null, [])
    | .documentStart :: rest =>
      let missing := rest.isEmpty || rest.head? = some .documentStart || rest.head? = some .documentEnd
      nodeOrNull? steps 128 .block missing rest
    | ts => node? steps 128 .block ts
  if rest.all (· = .documentEnd) then some v else none

def withoutMark : List Char → List Char
  | c :: rest => if c.toNat = 0xFEFF then rest else c :: rest
  | [] => []

def parse? (text : String) : Option Value := do
  let cs := withoutMark text.toList
  guard (cs.all isAllowed)
  let ts ← tokens? (unifyBreaks cs)
  document? ts

end SemanticSql.Yaml
