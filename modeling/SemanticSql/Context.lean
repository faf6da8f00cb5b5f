import SemanticSql.Calendar.Zone
import SemanticSql.Dict
import SemanticSql.Error
import SemanticSql.RelativeDate

/-! What one compilation takes for granted: the dialect, the calendar, the user. -/
namespace SemanticSql

structure Context where
  dialect : Dialect
  timezone : Option String := none
  convertsTimezone : Bool := true
  weekStart : Weekday := .monday
  now : DateTime
  userAttributes : Dict String := []
  /-- Fail where rows would be counted twice, instead of warning. -/
  strictAggregates : Bool := false
  deriving Repr

def Context.clock (c : Context) : Clock := { now := c.now, weekStart := c.weekStart }

def checkTimezone : Option String → Except Error Unit
  | some name => if Zone.isKnown name then .ok () else .error (.query (.unknownTimezone name))
  | none => .ok ()

def Context.withDialect (c : Context) (dialect : Dialect) : Context := { c with dialect }

def addWarning (warnings : List String) (text : String) : List String :=
  if warnings.contains text then warnings else warnings ++ [text]

structure Progress where
  expanded : List (String × String) := []
  warnings : List String := []
  deriving Repr

abbrev Compile := ExceptT Error (StateM Progress)

namespace Compile

variable {α : Type}

def fail (e : Error) : Compile α := throw e

def ofExcept (r : Except Error α) : Compile α :=
  match r with
  | .ok a => pure a
  | .error e => throw e

instance : MonadLift (Except Error) Compile := ⟨ofExcept⟩

def warn (text : String) : Compile Unit :=
  modify fun p => { p with warnings := addWarning p.warnings text }

def known? (key : String) : Compile (Option String) := do
  return Dict.get? (← get).expanded key

def remember (key sql : String) : Compile Unit :=
  modify fun p => { p with expanded := (key, sql) :: p.expanded }

def run (step : Compile α) (progress : Progress) : Except Error α × Progress :=
  StateT.run (ExceptT.run step) progress

def attempt (step : Compile α) : Compile (Except Error α) := fun progress =>
  let (result, progress) := Compile.run step progress
  (.ok result, progress)

end Compile

end SemanticSql
