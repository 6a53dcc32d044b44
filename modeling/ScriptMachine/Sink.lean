import ScriptMachine.Fault

/-!
# Printed text

A `Sink` takes what a program prints. It may have a `budget`, the number of bytes that it still accepts;
a piece of text that does not fit whole is refused and leaves the sink as it was. `Sink.printLine` hands
over a line and its newline as two pieces, so that a line can be accepted and its newline refused.
-/

set_option autoImplicit false
set_option relaxedAutoImplicit false

namespace ScriptMachine

/-- The text printed so far, and the number of bytes that are still accepted if there is a limit. -/
structure Sink where
  written : String
  budget : Option Nat
  deriving DecidableEq, Inhabited, Repr

namespace Sink

/-- A sink that has taken nothing yet. -/
def ofBudget (budget : Option Nat) : Sink :=
  ⟨"", budget⟩

/-- Whether a piece of text is accepted. -/
def accepts (sink : Sink) (piece : String) : Bool :=
  match sink.budget with
  | none => true
  | some bytes => piece.utf8ByteSize ≤ bytes

/-- The sink after a piece of text that it accepts. -/
def take (sink : Sink) (piece : String) : Sink :=
  ⟨sink.written ++ piece, sink.budget.map fun bytes ↦ bytes - piece.utf8ByteSize⟩

/-- The fault of a piece of text that is refused. -/
def refusal : Fault :=
  .outputFailed "sink full"

/-- Hands a piece of text over. -/
def write (piece : String) : EStateM Fault Sink Unit := fun sink ↦
  if sink.accepts piece then .ok () (sink.take piece) else .error refusal sink

/-- Hands a line and then its newline over. -/
def printLine (line : String) : EStateM Fault Sink Unit := do
  write line
  write "\n"

end Sink

end ScriptMachine
