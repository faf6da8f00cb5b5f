import SemanticSql.Filter.Predicate
import SemanticSql.Number.Numeral
import SemanticSql.RelativeDate.Grammar
import SemanticSql.Text.Cut
import SemanticSql.Value

/-!
Filter literals, the short texts by which a field is filtered: `-cancelled`, `>=100`, `web, app`, `%shoe%`, `after
2024-01-01`, `last 3 months`.
-/
namespace SemanticSql

structure Condition where
  predicate : Predicate
  value : Value
  deriving Repr

namespace Literal

def keyword? (yesNo : Bool) (text : String) : Option Predicate :=
  match Text.lower text with
  | "null" => some (.isNull false)
  | "-null" => some (.isNull true)
  | "true" => some (.isTrue false)
  | "false" => some (.isTrue true)
  | "yes" => if yesNo then some (.isTrue false) else none
  | "no" => if yesNo then some (.isTrue true) else none
  | _ => none

def within (range : DateRange) : List Condition :=
  [⟨.compare .greaterOrEqual,.str range.first.text⟩,⟨.compare .lessOrEqual,.str range.last.text⟩]

inductive Anchor where
  | after | before | on
  deriving DecidableEq, Repr

def word? (word cs : List Char) : Option (List Char) := do
  let (lead, rest) := (cs.take word.length, cs.drop word.length)
  guard (lead.map Char.toLower = word)
  let blank := fun c : Char => c = ' ' || c = '\t' || c = '\r' || c = '\n'
  guard (rest.head?.any blank)
  some (rest.dropWhile blank)

def anchor? (cs : List Char) : Option (Anchor × List Char) :=
  match word? "after".toList cs with
  | some rest => some (.after, rest)
  | none =>
    match word? "before".toList cs with
    | some rest => some (.before, rest)
    | none => (word? "on".toList cs).map fun rest => (.on, rest)

def anchored? (clock : Clock) (text : String) : Option (Except Error (List Condition)) := do
  let (anchor, rest) ← anchor? text.toList
  let time ← DateTime.parseLoose? (String.ofList rest)
  match anchor with
  | .after => some (.ok [⟨.compare .greaterOrEqual,.str time.text⟩])
  | .before => some (.ok [⟨.compare .less,.str time.text⟩])
  | .on =>
    match clock.range? (.between time.date time.date) with
    | some range => some (.ok (within range))
    | none => some (.error (.parse (.invalidDate text)))

def items (text : String) : List String :=
  ((Text.split ',' text).map Text.trim).filter fun s => !s.isEmpty

def isNegated (item : String) : Bool := item.toList.head? == some '-'

def itemValue (item : String) : String :=
  Text.trim (String.ofList (item.toList.dropWhile (· == '-')))

/-- A list is negated as a whole or not at all. -/
def listCondition (text : String) : Except Error Condition :=
  let items := items text
  let values := Value.strings (items.map itemValue)
  let negated := (items.filter isNegated).length
  if negated = 0 then .ok ⟨.oneOf false,values⟩
  else if negated = items.length then .ok ⟨.oneOf true,values⟩
  else .error (.query (.mixedNegation text))

def comparison? : List Char → Option (Comparison × List Char)
  | '<' :: '=' :: rest => some (.lessOrEqual, rest)
  | '>' :: '=' :: rest => some (.greaterOrEqual, rest)
  | '<' :: '>' :: rest => some (.notEqual, rest)
  | '!' :: '=' :: rest => some (.notEqual, rest)
  | '=' :: rest => some (.equal, rest)
  | '>' :: rest => some (.greater, rest)
  | '<' :: rest => some (.less, rest)
  | _ => none

/-- What a comparison compares with: a number if the text is one, else the text without quotes around it. -/
def operand (text : String) : Value :=
  match Numeral.int64? text with
  | some i => .int i
  | none =>
    match Numeral.binary64? text with
    | some x => if x.isFinite then .float x else .str (String.ofList (Text.strip '\'' text.toList))
    | none => .str (String.ofList (Text.strip '\'' text.toList))

def wildcard? (negated : Bool) (body : String) : Option Condition :=
  let cs := body.toList
  let openStart := cs.head? == some '%'
  let openFinish := cs.getLast? == some '%' && cs.length > 1
  let inner := Value.str (String.ofList (Text.strip '%' cs))
  match openStart, openFinish with
  | true, true => some ⟨.occurs .anywhere true negated,inner⟩
  | false, true => some ⟨.occurs .start true negated,inner⟩
  | true, false => some ⟨.occurs .finish true negated,inner⟩
  | false, false => none

def whole (text : String) : Condition :=
  let (negated, body) := match text.toList with
    | '-' :: rest => (true, Text.trim (String.ofList rest))
    | _ => (false, text)
  match wildcard? negated body with
  | some condition => condition
  | none => ⟨.compare (if negated then .notEqual else .equal),.str body⟩

def conditions (clock : Clock) (yesNo : Bool) (literal : String) : Except Error (List Condition) :=
  let text := Text.trim literal
  if text.isEmpty then .error (.parse .emptyLiteral)
  else
    match keyword? yesNo text with
    | some predicate => .ok [⟨predicate,.null⟩]
    | none =>
      match RelativeDate.parse? text with
      | some date =>
        match clock.range? date with
        | some range => .ok (within range)
        | none => .error (.parse (.noDateRange text))
      | none =>
        match anchored? clock text with
        | some result => result
        | none =>
          if text.toList.contains ',' then (listCondition text).map fun c => [c]
          else
            match comparison? text.toList with
            | some (op, rest) =>
              let body := Text.trim (String.ofList rest)
              if body.isEmpty then .error (.parse (.operatorWithoutValue text))
              else .ok [⟨.compare op,operand body⟩]
            | none => .ok [whole text]

end Literal

end SemanticSql
