import SemanticSql.Error
import SemanticSql.Text.Cut
import SemanticSql.Value

/-!
Constants in SQL: text between single quotes, in which a quote is written twice, and document values as the
constants they stand for.
-/
namespace SemanticSql.Sql

def escapeQuotes (s : String) : String := Text.replace '\'' "''" s

def quote (s : String) : String := "'" ++ escapeQuotes s ++ "'"

def startsWithDate (s : String) : Bool :=
  match s.toList with
  | a :: b :: c :: d :: '-' :: e :: f :: '-' :: g :: h :: _ => [a,b,c,d,e,f,g,h].all Text.isDecimal
  | _ => false

def textConstant (d : Dialect) (datatype : Option Datatype) (s : String) : String :=
  match datatype with
  | some datatype => if startsWithDate s then d.timeLiteral datatype (escapeQuotes s) else quote s
  | none => quote s

mutual

def constant (d : Dialect) (datatype : Option Datatype) : Value → Except Error String
  | .str s => .ok (textConstant d datatype s)
  | .int i => .ok (toString i)
  | .float x => .ok x.valueText
  | .bool true => .ok "TRUE"
  | .bool false => .ok "FALSE"
  | .null => .ok "NULL"
  | .list items => do
    let rendered ← constants d datatype items
    .ok ("(" ++ ",".intercalate rendered ++ ")")
  | .object entries => .error (.parse (.objectValue (Value.object entries).compact))
  | .mapping entries => .error (.parse (.objectValue (Value.mapping entries).compact))

def constants (d : Dialect) (datatype : Option Datatype) : List Value → Except Error (List String)
  | [] => .ok []
  | v :: rest => do
    let first ← constant d datatype v
    let others ← constants d datatype rest
    .ok (first :: others)

end

end SemanticSql.Sql
