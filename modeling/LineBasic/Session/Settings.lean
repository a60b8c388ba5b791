import Std.Data.TreeMap
import LineBasic.Program.Cursor

/-! Settings of a session: what statements such as AUTO, ON ERROR GOTO, TRON and SCREEN read and
write. -/

namespace LineBasic

/-- Automatic line numbers: the next one and the step between two. -/
structure AutoNumber where
  next : Nat
  step : Nat
  deriving Repr, DecidableEq

structure Settings where
  auto : Option AutoNumber := none
  /-- The line that handles errors. -/
  onError : Option Nat := none
  /-- The number of the last fault. -/
  faultCode : Nat := 0
  /-- The line of the last fault. -/
  faultLine : Option Nat := none
  /-- The statement whose fault is being handled. -/
  resume : Option Cursor := none
  /-- Where CONT goes on. -/
  restart : Option Cursor := none
  tracing : Bool := false
  screen : List Int16 := []
  color : List Int16 := []
  palette : Std.TreeMap Int16 Int16 := ∅

namespace Settings

/-- Forgets the error handler and the fault it may be handling. -/
def clearTrap (settings : Settings) : Settings :=
  { settings with onError := none, faultCode := 0, faultLine := none, resume := none }

/-- The line number for the next line, and the settings after it is used up. Automatic numbering ends
where the numbers do. -/
def nextAuto (settings : Settings) : Option Nat × Settings :=
  match settings.auto with
  | none => (none, settings)
  | some auto =>
      let following := auto.next + auto.step
      let after := if following ≤ Line.maxNumber then some { auto with next := following } else none
      (some auto.next, { settings with auto := after })

end Settings

end LineBasic
