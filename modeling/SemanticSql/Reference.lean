import SemanticSql.Text.Blank
import SemanticSql.Text.Chunk

/-!
References in SQL: names between `$`, a brace and the closing brace. The name may have blanks around it.
-/
namespace SemanticSql.Reference

def length? : List Char → Option Nat
  | '$' :: '\x7b' :: rest =>
    let body := rest.takeWhile (· != '\x7d')
    if body.isEmpty || body.length = rest.length then none else some (body.length + 3)
  | _ => none

def body (token : List Char) : String := Text.trim (String.ofList ((token.drop 2).dropLast))

inductive Part where
  | text (s : String)
  | name (s : String)
  deriving DecidableEq, Repr

def parts (sql : String) : List Part :=
  (Text.chunks length? sql.toList).map fun
    | .plain cs => .text (String.ofList cs)
    | .token cs => .name (body cs)

def names (sql : String) : List String :=
  (parts sql).filterMap fun
    | .text _ => none
    | .name s => some s

def table : String := "TABLE"

end SemanticSql.Reference
