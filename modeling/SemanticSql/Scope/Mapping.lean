import SemanticSql.JoinGraph.Component
import SemanticSql.Scope

/-! Names that stand for fields. A name that no field has may be a mapping of the model, or a period of time that
means the date of the metrics; it is then replaced by a field throughout the request. -/
namespace SemanticSql

def leadingName? : List Char → List Char → Option (List Char)
  | [], _ => some []
  | _ :: _, [] => none
  | c :: name, d :: rest => if Text.sameLetter c d then (leadingName? name rest).map (d :: ·) else none

def leadingWord? (before : Option Char) (name cs : List Char) : Option Nat := do
  let found ← leadingName? name cs
  let rest := cs.drop found.length
  if Text.isBoundary (found.getLast? <|> before) rest.head? then some found.length else none

def separatedWord? (name : List Char) : List Char → Option Nat
  | [] => none
  | c :: rest =>
    if Text.isWord c || c = '.' then none else (leadingWord? (some c) name rest).map (· + 1)

def renameWord (name target cs : List Char) : List Char :=
  let rest (cs : List Char) := Text.substitute (separatedWord? name) (fun found => found.take 1 ++ target) cs
  match leadingWord? none name cs with
  | some n => target ++ rest (cs.drop n)
  | none => rest cs

abbrev Renaming := Dict String

namespace Renaming

def name (d : Renaming) (name : String) : String := (Dict.get? d (Text.lower (Text.trim name))).getD name

def text (d : Renaming) (text : String) : String :=
  String.ofList (d.foldl (fun cs e => renameWord e.1.toList e.2.toList cs) text.toList)

mutual

def spec (d : Renaming) : FilterSpec → FilterSpec
  | .group conditions connective => .group (specs d conditions) connective
  | .condition field expression value => .condition (d.name field) expression value

def specs (d : Renaming) : List FilterSpec → List FilterSpec
  | [] => []
  | f :: rest => spec d f :: specs d rest

end

def clause (d : Renaming) : Clause → Clause
  | .text s => .text (d.text s)
  | .list filters => .list (d.specs filters)
  | .single filter => .single (d.spec filter)

def orderBy (d : Renaming) (o : OrderBy) : OrderBy :=
  match o.entries with
  | .ok entries => .list (entries.map fun e => { e with field := d.name e.field })
  | .error _ => o

/-- Renames the fields of a request; the steps of a funnel stay as they are. -/
def request (d : Renaming) (r : Request) : Request :=
  { r with
    metrics := r.metrics.map d.name
    dimensions := r.dimensions.map d.name
    filter := r.filter.map d.clause
    having := r.having.map d.clause
    orderBy := r.orderBy.map d.orderBy }

end Renaming

def periodNames : List TimeFrame := [.date,.week,.month,.quarter,.year]

def period? (name : String) : Option TimeFrame := periodNames.find? fun f => f.name == name

namespace Scope

variable (s : Scope)

def metricDates (r : Request) : Except Error (List FieldUse) :=
  (s.found r.metrics).foldlM
    (fun dates metric => do
      match ← s.project.canonDate metric with
      | some date => .ok (if dates.any fun d => d.id == date.id then dates else dates ++ [date])
      | none => .ok dates)
    []

def mapPeriod (r : Request) (period : TimeFrame) : Except Error (String × Bool) := do
  match ← s.metricDates r with
  | [] => .error (.query (.unmappedDate period.name))
  | first :: others => .ok ((first.atGrain (some (.time period))).qualifiedName, !others.isEmpty)

def joinsAll (anchors : List FieldUse) (u : FieldUse) : Bool :=
  anchors.all fun a =>
    a.view.name == u.view.name || (s.project.graph.reachable a.view.name).contains u.view.name

def inMergeGroup (anchors : List FieldUse) (u : FieldUse) : Bool :=
  match anchors with
  | [] => false
  | a :: _ => s.project.graph.mergeGroup? a.view.name == s.project.graph.mergeGroup? u.view.name

/-- The field that a mapping means beside other fields: one that joins them all, else one in their merge
group, else the first. -/
def mapField (mapping : Mapping) (anchors : List FieldUse) : Except Error String := do
  let fields ← mapping.fields.mapM s.project.field
  match fields.find? (s.joinsAll anchors) <|> fields.find? (s.inMergeGroup anchors) <|> fields.head? with
  | some u => .ok u.qualifiedName
  | none => .error (.model .emptyMapping)

def isUnknown (name : String) : Bool :=
  match s.project.field name with
  | .ok _ => false
  | .error e => e.isAccess

structure Names where
  targets : Renaming := []
  merges : Bool := false
  deriving Repr

def addName (r : Request) (anchors : List FieldUse) (names : Names) (name : String) : Except Error Names :=
  let key := Text.lower (Text.trim name)
  if names.targets.contains key || !s.isUnknown key then .ok names
  else
    match period? key with
    | some period => do
      let (target, several) ← s.mapPeriod r period
      .ok { targets := names.targets.insert key target, merges := names.merges || several }
    | none =>
      match s.project.mapping? s.model key with
      | some mapping => do
        let target ← s.mapField mapping anchors
        .ok { names with targets := names.targets.insert key target }
      | none => .ok names

def names (r : Request) : Except Error Names :=
  r.fieldNames.foldlM (s.addName r (s.found r.fieldNames)) {}

def resolveNames (r : Request) : Except Error (Request × Bool) := do
  let names ← s.names r
  .ok (names.targets.request r, names.merges)

end Scope

end SemanticSql
