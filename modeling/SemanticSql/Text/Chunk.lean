/-! Cutting a text into tokens and the text between them. -/
namespace SemanticSql.Text

inductive Chunk where
  | plain (cs : List Char)
  | token (cs : List Char)
  deriving DecidableEq, Repr

def Chunk.chars : Chunk → List Char
  | plain cs | token cs => cs

def withPlain (cs : List Char) (chunks : List Chunk) : List Chunk :=
  if cs.isEmpty then chunks else .plain cs :: chunks

/-- The chunks of a text. `skip` characters at its front belong to a token that is already found, and
`before`, reversed, is the plain text since the last token. -/
def chunksFrom (find : List Char → Option Nat) : Nat → List Char → List Char → List Chunk
  | _, before, [] => withPlain before.reverse []
  | skip + 1, before, _ :: rest => chunksFrom find skip before rest
  | 0, before, c :: rest =>
    match find (c :: rest) with
    | some (n + 1) =>
      withPlain before.reverse (.token ((c :: rest).take (n + 1)) :: chunksFrom find n [] rest)
    | _ => chunksFrom find 0 (c :: before) rest

def chunks (find : List Char → Option Nat) (cs : List Char) : List Chunk := chunksFrom find 0 [] cs

def substitute (find : List Char → Option Nat) (new : List Char → List Char) (cs : List Char) : List Char :=
  (chunks find cs).flatMap fun
    | .plain cs => cs
    | .token cs => new cs

def lengthIfLeading (lead cs : List Char) : Option Nat := if lead.isPrefixOf cs then some lead.length else none

end SemanticSql.Text
