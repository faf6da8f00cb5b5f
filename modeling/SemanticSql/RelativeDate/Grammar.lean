import SemanticSql.RelativeDate

/-!
How relative dates are written: `today`, `3 days ago`, `last 2 weeks`, `month to date`, `1 year ago for 3 months`,
`2024-01-01 until 2024-01-31`.
-/
namespace SemanticSql.RelativeDate

abbrev Reader (α : Type) := List Char → Option (α × List Char)

def isSpace (c : Char) : Bool := c = ' ' || c = '\t' || c = '\n' || c = '\r'

def word? : List Char → List Char → Option (List Char)
  | [], cs => some cs
  | _ :: _, [] => none
  | w :: ws, c :: cs => if w = c.toLower then word? ws cs else none

def gap? (cs : List Char) : Option (List Char) :=
  if cs.head?.any isSpace then some (cs.dropWhile isSpace) else none

def count? : Reader Nat := fun cs =>
  let ds := cs.takeWhile Char.isDigit
  let n := ds.foldl (fun n c => n * 10 + (c.toNat - 48)) 0
  if ds.isEmpty ∨ twoTo 32 ≤ n then none else some (n, cs.drop ds.length)

def unit? : Reader Interval := fun cs =>
  [Interval.day,.week,.month,.quarter,.year].findSome? fun unit =>
    let name := unit.name.toList
    ((word? (name ++ ['s']) cs).orElse fun _ => word? name cs).map fun rest => (unit, rest)

def date? : Reader Date := fun cs => do
  let year := cs.takeWhile Char.isDigit
  let rest ← Calendar.mark? '-' (cs.drop year.length)
  let month := rest.takeWhile Char.isDigit
  let rest ← Calendar.mark? '-' (rest.drop month.length)
  let day := rest.takeWhile Char.isDigit
  guard (year ≠ [] ∧ month ≠ [] ∧ day ≠ [])
  let date ← Date.parse? (String.ofList (year ++ '-' :: month ++ '-' :: day))
  some (date, rest.drop day.length)

def countAgo? : Reader (Nat × Interval) := fun cs => do
  let (count, cs) ← count? cs
  let (unit, cs) ← unit? (← gap? cs)
  let cs ← word? "ago".toList (← gap? cs)
  some ((count, unit), cs)

def untilToday? (cs : List Char) : Option (List Char) := do
  let cs ← word? "to".toList (← gap? cs)
  word? "date".toList (← gap? cs)

def countOrOne (cs : List Char) : Nat × List Char :=
  match count? cs with
  | some (count, rest) =>
    match gap? rest with
    | some rest => (count, rest)
    | none => (1, cs)
  | none => (1, cs)

def agoFor? : Reader RelativeDate := fun cs => do
  let ((count, unit), cs) ← countAgo? cs
  let cs ← word? "for".toList (← gap? cs)
  let (length, cs) ← count? (← gap? cs)
  let (lengthUnit, cs) ← unit? (← gap? cs)
  some (.agoFor count unit length lengthUnit, cs)

def agoToDate? : Reader RelativeDate := fun cs => do
  let (count, cs) := countOrOne cs
  let (unit, cs) ← unit? cs
  let cs ← word? "ago".toList (← gap? cs)
  let cs ← untilToday? cs
  some (.agoToDate count unit, cs)

def ago? : Reader RelativeDate := fun cs =>
  (countAgo? cs).map fun p => (.ago p.1.1 p.1.2, p.2)

def this? : Reader RelativeDate := fun cs => do
  let (unit, cs) ← unit? (← gap? (← word? "this".toList cs))
  some (.this unit, cs)

def last? : Reader RelativeDate := fun cs => do
  let (count, cs) := countOrOne (← gap? (← word? "last".toList cs))
  let (unit, cs) ← unit? cs
  some (.last count unit, cs)

def toDate? : Reader RelativeDate := fun cs => do
  let (unit, cs) ← unit? cs
  some (.toDate unit, ← untilToday? cs)

def between? : Reader RelativeDate := fun cs => do
  let (first, cs) ← date? cs
  let cs ← word? "until".toList (← gap? cs)
  let (final, cs) ← date? (← gap? cs)
  some (.between first final, cs)

def forms : List (Reader RelativeDate) :=
  [fun cs => (word? "today".toList cs).map fun rest => (.today, rest),
   fun cs => (word? "yesterday".toList cs).map fun rest => (.yesterday, rest),
   agoFor?,agoToDate?,ago?,this?,last?,toDate?,between?]

def parse? (s : String) : Option RelativeDate :=
  match forms.findSome? fun form => form (s.toList.dropWhile isSpace) with
  | some (date, rest) => if (rest.dropWhile isSpace).isEmpty then some date else none
  | none => none

end SemanticSql.RelativeDate
