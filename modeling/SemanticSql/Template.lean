import SemanticSql.Error
import SemanticSql.Template.Term

/-!
Templates in SQL. A text is a template if it has an opening delimiter of an output or a tag; any other text stands for
itself.
-/
namespace SemanticSql.Template

inductive Node where
  | text (s : String)
  | output (t : Term)
  | branch (arms : List (Term × List Node)) (otherwise : List Node)

def isDivider : List Token → Bool
  | .name s :: _ => s = "elif" || s = "else" || s = "endif"
  | _ => false

def maxDepth : Nat := 150

mutual

/-- Nodes up to the end or to a dividing tag. The first number bounds the steps, the second how deeply tags and terms
may still be nested. -/
def nodes? : Nat → Nat → List Piece → Option (List Node × List Piece)
  | 0, _, _ => none
  | _ + 1, _, [] => some ([], [])
  | n + 1, depth, .text s :: rest => do
    let (others, rest) ← nodes? n depth rest
    some (.text s :: others, rest)
  | n + 1, depth, .output ts :: rest => do
    let t ← Term.parse? depth ts
    let (others, rest) ← nodes? n depth rest
    some (.output t :: others, rest)
  | n + 1, depth, .tag ts :: rest =>
    if isDivider ts then some ([], .tag ts :: rest)
    else
      match ts, depth with
      | .name "if" :: ts, inner + 1 => do
        let (arms, otherwise, rest) ← arms? n inner ts rest
        let (others, rest) ← nodes? n depth rest
        some (.branch arms otherwise :: others, rest)
      | _, _ => none

def arms? : Nat → Nat → List Token → List Piece → Option (List (Term × List Node) × List Node × List Piece)
  | 0, _, _, _ => none
  | n + 1, depth, condition, rest => do
    let t ← Term.parse? depth condition
    let (body, rest) ← nodes? n depth rest
    match rest with
    | .tag [.name "endif"] :: rest => some ([(t, body)], [], rest)
    | .tag [.name "else"] :: rest => do
      let (otherwise, rest) ← nodes? n depth rest
      match rest with
      | .tag [.name "endif"] :: rest => some ([(t, body)], otherwise, rest)
      | _ => none
    | .tag (.name "elif" :: condition) :: rest => do
      let (arms, otherwise, rest) ← arms? n depth condition rest
      some ((t, body) :: arms, otherwise, rest)
    | _ => none

end

def parse? (s : String) : Option (List Node) := do
  let pieces ← scan? s
  match nodes? (2 * pieces.length + 2) maxDepth pieces with
  | some (nodes, []) => some nodes
  | _ => none

mutual

def renderNode? (bindings : Dict Operand) : Node → Option String
  | .text s => some s
  | .output t => (t.eval? bindings).map Operand.text
  | .branch arms otherwise => do
    match ← renderArms? bindings arms with
    | some text => some text
    | none => renderNodes? bindings otherwise

def renderNodes? (bindings : Dict Operand) : List Node → Option String
  | [] => some ""
  | node :: rest => do
    let first ← renderNode? bindings node
    let others ← renderNodes? bindings rest
    some (first ++ others)

def renderArms? (bindings : Dict Operand) : List (Term × List Node) → Option (Option String)
  | [] => some none
  | (t, body) :: rest => do
    let c ← t.eval? bindings
    if c.truthy then (renderNodes? bindings body).map some else renderArms? bindings rest

end

def isTemplate (sql : String) : Bool := Text.occurs "\x7b\x7b" sql || Text.occurs "\x7b%" sql

def render (attributes : Dict String) (sql : String) : Except Error String :=
  if isTemplate sql then
    let bindings : Dict Operand :=
      [("user_attributes", .ofEntries (attributes.map fun e => (.str e.1, .str e.2)))]
    match (parse? sql).bind (renderNodes? bindings) with
    | some text => .ok text
    | none => .error (.parse .template)
  else .ok sql

end SemanticSql.Template
