import ScriptMachine.Code.Listing
import ScriptMachine.Lowering
import ScriptMachine.Machine.Run
import ScriptMachine.Tree.Reader

/-!
# The engine

An `Engine` is a machine together with the way in which it compiles: strictly or not. Scripts evaluated
one after the other share globals, heap and constants, so that a function defined by one can be called by
the next. `Engine.eval` compiles and runs a script, `Engine.evalText` reads it first, `Engine.call` calls
a global function, and `Engine.dump` lists the code of a script without running it. As for single calls, a
number of steps limits how long code may run.
-/

set_option autoImplicit false
set_option relaxedAutoImplicit false

namespace ScriptMachine

/-! ### Errors -/

/-- The reason why a script has no result. -/
inductive EngineError where
  | compile (error : CompileError)
  | runtime (located : LocatedFault)
  | unreadable (path reason : String)
  | invalidTree
  deriving DecidableEq, Repr

namespace EngineError

/-- The text of an error. -/
def message : EngineError → String
  | .compile error => error.message
  | .runtime located => located.message
  | .unreadable path reason => "failed to read " ++ path ++ ": " ++ reason
  | .invalidTree => "invalid syntax tree"

/-- The code of a kind of error. -/
def code : EngineError → String
  | .compile error => error.code
  | .runtime located => located.fault.code
  | .unreadable _ _ => "SJ-I001"
  | .invalidTree => "SJ-I002"

end EngineError

/-! ### Compiling for a machine -/

namespace Machine

/-- Carries a compilation out over the constants and the identities of a machine. -/
def compileWith (machine : Machine) (compilation : Lowering Routine) :
    Except CompileError Routine × Machine :=
  match compilation ⟨machine.constants, machine.nextIdentity⟩ with
  | .ok routine workspace =>
    (.ok routine,
      { machine with constants := workspace.constants, nextIdentity := workspace.nextIdentity })
  | .error error workspace =>
    (.error error,
      { machine with constants := workspace.constants, nextIdentity := workspace.nextIdentity })

end Machine

/-- One section of a dump: the name of a function, the sizes of its frame, and its listing. The
receiver does not count among the parameters that are shown. -/
def Routine.section (routine : Routine) (constants : ConstantTable) : String :=
  "== " ++ routine.name ++ " (params " ++ toString (routine.unit.parameterCount - 1) ++ ", slots " ++
    toString routine.unit.slotCount ++ ") ==\n" ++ routine.unit.listing constants

/-- The compiled functions among some values. -/
def compiledAmong (values : List Value) : List Routine :=
  values.filterMap fun value ↦
    match value with
    | .function callee => callee.routine?
    | _ => none

/-! ### Engines -/

/-- A machine and whether it compiles strictly. -/
structure Engine where
  machine : Machine
  strict : Bool

namespace Engine

/-- The outcome of a step that can have a value. -/
abbrev Outcome :=
  Except EngineError Value × Engine

/-- Compiles a script. -/
def compile (engine : Engine) (script : Script) : Except CompileError Routine × Engine :=
  let (result, machine) := engine.machine.compileWith (compileScript engine.strict script)
  (result, { engine with machine := machine })

/-- The outcome of a call as one of the engine. -/
def ofCall (strict : Bool) : CallOutcome → Outcome
  | (.ok value, machine) => (.ok value, ⟨machine, strict⟩)
  | (.error located, machine) => (.error (.runtime located), ⟨machine, strict⟩)

/-- Compiles a script and runs it. Its value is what its body returns. -/
def eval (steps : Nat) (script : Script) (engine : Engine) : Option Outcome :=
  match engine.compile script with
  | (.error error, engine) => some (.error (.compile error), engine)
  | (.ok routine, engine) =>
    (engine.machine.runMain steps (.compiled routine)).map (ofCall engine.strict)

/-- Reads a script and evaluates it. -/
def evalText (steps : Nat) (text : String) (engine : Engine) : Option Outcome :=
  match Script.ofText? text with
  | none => some (.error .invalidTree, engine)
  | some script => engine.eval steps script

/-- Calls the function that a global name is bound to. -/
def call (steps : Nat) (name : String) (arguments : List Value) (engine : Engine) : Option Outcome :=
  (engine.machine.callGlobal steps name arguments).map (ofCall engine.strict)

/-- Compiles a script and lists the code of its body, and then that of every function in it, in the order
in which they were compiled: these are the functions among the constants that the compilation added. -/
def dump (engine : Engine) (script : Script) : Except CompileError String × Engine :=
  let before := engine.machine.constants.size
  match engine.compile script with
  | (.error error, engine) => (.error error, engine)
  | (.ok main, engine) =>
    let constants := engine.machine.constants
    let routines := main :: compiledAmong (constants.entries.toList.drop before)
    (.ok ("\n".intercalate (routines.map fun routine ↦ routine.section constants)), engine)

end Engine

end ScriptMachine
