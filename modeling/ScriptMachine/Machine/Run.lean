import ScriptMachine.Machine.Step

/-!
# Calls

A call carries instructions out until the frame that the host entered returns or an instruction fails.
Code that was compiled from a program always comes to such an end, but hand-made code need not, so
`Activity.run` is given the number of steps that it may take and answers with nothing when they do not
suffice. `Machine.invoke` calls a function, `Machine.callGlobal` the function that a global name is bound
to. A failed call leaves top and base of the stack as they were before it.

`Frame.locate` says where a fault arose: in the function that is running after the failing instruction,
which for a return is already the caller, at the offset from which the instruction was read.
-/

set_option autoImplicit false
set_option relaxedAutoImplicit false

namespace ScriptMachine

/-- The outcome of a call: its value or its fault, and the machine after it. -/
abbrev CallOutcome :=
  Except LocatedFault Value × Machine

/-- A fault at an offset of the code of a frame. -/
def Frame.locate (frame : Frame) (fault : Fault) (offset : Nat) : LocatedFault :=
  ⟨fault, frame.routine.name, frame.routine.unit.lineAt offset, frame.routine.unit.mnemonicAt offset⟩

/-- Carries instructions out to the end of the call, in at most a number of steps. -/
def Activity.run : (steps : Nat) → Activity → Option CallOutcome
  | 0, _ => none
  | steps + 1, activity =>
    let offset := activity.offset
    match Execution.step activity with
    | .ok none next => Activity.run steps next
    | .ok (some value) next => some (.ok value, next.machine)
    | .error fault next => some (.error (next.frame.locate fault offset), next.machine)

namespace Execution

/-- Puts the words of some values on top of the stack. -/
def pushAll : List Value → Execution Unit
  | [] => pure ()
  | value :: rest => do
    push (← encode value)
    pushAll rest

/-- Builds the frame of a routine that the host calls: the word of the routine, the receiver and the
arguments, and a record that ends the call. -/
def enterFromHost (frame : Frame) (receiver : Value) (arguments : List Value) : Execution Unit := do
  push frame.word
  push (← encode receiver)
  pushAll arguments
  enter frame.routine arguments.length hostReturn frame.word

end Execution

namespace Machine

/-- The machine with its stack cut back to an earlier top and base. -/
def unwind (machine : Machine) (top base : Nat) : Machine :=
  { machine with stack := { machine.stack with top := top, base := base } }

/-- Calls a compiled function. -/
def invokeRoutine (steps : Nat) (routine : Routine) (receiver : Value) (arguments : List Value)
    (machine : Machine) : Option CallOutcome :=
  let top := machine.stack.top
  let base := machine.stack.base
  let (word, machine) := machine.box (.function (.compiled routine))
  let frame : Frame := ⟨routine, word⟩
  match Execution.enterFromHost frame receiver arguments ⟨machine, frame, 0⟩ with
  | .error fault activity =>
    some (.error (.atEntry fault routine.name), activity.machine.unwind top base)
  | .ok () activity =>
    match activity.run steps with
    | none => none
    | some (.ok value, machine) => some (.ok value, machine)
    | some (.error located, machine) => some (.error located, machine.unwind top base)

/-- Calls a function. -/
def invoke (steps : Nat) (function : Function) (receiver : Value) (arguments : List Value)
    (machine : Machine) : Option CallOutcome :=
  match function with
  | .native _ name operation =>
    match applyNative operation receiver arguments machine with
    | .ok value machine => some (.ok value, machine)
    | .error fault machine => some (.error (.atEntry fault name), machine)
  | .compiled routine => invokeRoutine steps routine receiver arguments machine

/-- Runs the compiled body of a script. -/
def runMain (steps : Nat) (main : Function) (machine : Machine) : Option CallOutcome :=
  machine.invoke steps main .undefined []

/-- Calls the function that a global name is bound to. -/
def callGlobal (steps : Nat) (name : String) (arguments : List Value) (machine : Machine) :
    Option CallOutcome :=
  match machine.globals.lookup name with
  | .function callee => machine.invoke steps callee .undefined arguments
  | other => some (.error (.atEntry (.typeMismatch "function" other.typeName) name), machine)

end Machine

end ScriptMachine
