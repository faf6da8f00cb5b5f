import SemanticSql.Calendar
import SemanticSql.Number.Power
import SemanticSql.Text.Blank

/-! Dates and times as text. Numbers may be written with fewer digits than the pattern shows and with blanks before
them; a year without a sign has at most four digits. -/
namespace SemanticSql

namespace Calendar

def number? (width : Nat) (cs : List Char) : Option (Nat × List Char) :=
  let cs := Text.trimLeft cs
  let ds := (cs.takeWhile Char.isDigit).take width
  if ds.isEmpty then none
  else some (ds.foldl (fun n c => n * 10 + (c.toNat - 48)) 0, cs.drop ds.length)

def year? (cs : List Char) : Option (Int × List Char) :=
  match Text.trimLeft cs with
  | '-' :: rest => if rest.head?.any Char.isDigit then
      (number? rest.length rest).map fun p => (-(Int.ofNat p.1), p.2) else none
  | '+' :: rest => if rest.head?.any Char.isDigit then
      (number? rest.length rest).map fun p => (Int.ofNat p.1, p.2) else none
  | cs => (number? 4 cs).map fun p => (Int.ofNat p.1, p.2)

def mark? (c : Char) : List Char → Option (List Char)
  | d :: rest => if c = d then some rest else none
  | [] => none

def dateLead? (cs : List Char) : Option (Date × List Char) := do
  let (year, cs) ← year? cs
  let cs ← mark? '-' cs
  let (month, cs) ← number? 2 cs
  let cs ← mark? '-' cs
  let (day, cs) ← number? 2 cs
  let date ← Date.of? year month day
  some (date, cs)

def clockLead? (cs : List Char) : Option ((Nat × Nat) × List Char) := do
  let (hour, cs) ← number? 2 cs
  let cs ← mark? ':' cs
  let (minute, cs) ← number? 2 cs
  guard (hour ≤ 23 ∧ minute ≤ 59)
  some ((hour, minute), cs)

def secondLead? (cs : List Char) : Option (Nat × List Char) := do
  let cs ← mark? ':' cs
  let (second, cs) ← number? 2 cs
  guard (second ≤ 60)
  some (second, cs)

/-- The nanoseconds of a fraction of a second; digits after the ninth are dropped. -/
def fractionLead? : List Char → Option (Nat × List Char)
  | '.' :: rest =>
    let ds := rest.takeWhile Char.isDigit
    if ds.isEmpty then none
    else
      let kept := ds.take 9
      let n := kept.foldl (fun n c => n * 10 + (c.toNat - 48)) 0
      some (n * tenTo (9 - kept.length), rest.dropWhile Char.isDigit)
  | cs => some (0, cs)

end Calendar

open Calendar

def Date.parse? (s : String) : Option Date :=
  match dateLead? s.toList with
  | some (d, []) => some d
  | _ => none

namespace DateTime

def parse? (s : String) : Option DateTime := do
  let (date, cs) ← dateLead? s.toList
  let cs ← mark? 'T' cs
  let ((hour, minute), cs) ← clockLead? cs
  let (second, cs) ← secondLead? cs
  let (nanosecond, cs) ← fractionLead? cs
  guard cs.isEmpty
  some ⟨date,hour,minute,second,nanosecond⟩

def parseSpaced? (s : String) : Option DateTime := do
  let (year, cs) ← year? s.toList
  let cs ← mark? '-' (Text.trimLeft cs)
  let (month, cs) ← number? 2 cs
  let cs ← mark? '-' (Text.trimLeft cs)
  let (day, cs) ← number? 2 cs
  let date ← Date.of? year month day
  let cs ← mark? 'T' (Text.trimLeft cs)
  let (hour, cs) ← number? 2 cs
  let cs ← mark? ':' (Text.trimLeft cs)
  let (minute, cs) ← number? 2 cs
  let cs ← mark? ':' (Text.trimLeft cs)
  let (second, cs) ← number? 2 cs
  guard (hour ≤ 23 ∧ minute ≤ 59 ∧ second ≤ 60)
  let (nanosecond, cs) ← fractionLead? cs
  guard (Text.trimLeft cs).isEmpty
  some ⟨date,hour,minute,second,nanosecond⟩

/-- A date, alone or followed by a time with or without seconds; `T` or blanks may stand between. -/
def parseLoose? (s : String) : Option DateTime := do
  let cs := Text.trimList s.toList
  let (date, rest) ← dateLead? cs
  if rest.isEmpty then some ⟨date,0,0,0,0⟩
  else
    let clock := match rest with
      | 'T' :: rest => rest
      | rest => Text.trimLeft rest
    let ((hour, minute), rest) ← clockLead? clock
    if rest.isEmpty then some ⟨date,hour,minute,0,0⟩
    else
      let (second, rest) ← secondLead? rest
      guard rest.isEmpty
      some ⟨date,hour,minute,second,0⟩

end DateTime

namespace Calendar

def padded (width n : Nat) : String :=
  let ds := toString n
  String.ofList (List.replicate (width - ds.length) '0') ++ ds

/-- Years from 0 to 9999 have four digits; all others have a sign and at least four. -/
def yearText (year : Int) : String :=
  if 0 ≤ year ∧ year ≤ 9999 then padded 4 year.toNat
  else if year < 0 then "-" ++ padded 4 year.natAbs
  else "+" ++ padded 4 year.natAbs

end Calendar

def Date.text (d : Date) : String :=
  yearText d.year ++ "-" ++ padded 2 d.month ++ "-" ++ padded 2 d.day

namespace DateTime

def text (t : DateTime) : String :=
  t.date.text ++ "T" ++ padded 2 t.hour ++ ":" ++ padded 2 t.minute ++ ":" ++ padded 2 t.second

/-- As `text`, with the fraction in three, six or nine digits if there is one. -/
def fullText (t : DateTime) : String :=
  let n := t.nanosecond
  t.text ++
    if n = 0 then ""
    else if n % 1000000 = 0 then "." ++ padded 3 (n / 1000000)
    else if n % 1000 = 0 then "." ++ padded 6 (n / 1000)
    else "." ++ padded 9 n

end DateTime

end SemanticSql
