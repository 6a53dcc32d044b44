import ScriptMachine.Engine
import ScriptMachine.Proofs.HostEntry
import ScriptMachine.Proofs.Sites

/-!
# Sessions

A host gives an engine one `Command` after the other and gets an `Answer` to each. `Session` is every engine
that comes of this, with the values that the engine has handed out so far and the functions that it has
compiled. The host is free in what it asks for, except that a value it passes on has no identity or was
handed out before (`Command.Admissible`), and that there are never more constants, words of code or words
on the stack than a word can number (`Engine.Addresses`, `Engine.StaysSmall`).

`Engine.Visits` says which activities a command goes through while its code runs.
-/

set_option autoImplicit false
set_option relaxedAutoImplicit false

namespace ScriptMachine

/-! ### Commands -/

/-- What a host asks of an engine. -/
inductive Command where
  | eval (script : Script)
  | evalText (text : String)
  | call (name : String) (arguments : List Value)
  | dump (script : Script)
  | compile (script : Script)
  | register (name : String) (value : Value)
  | lookup (name : String)
  | getField (object : ObjectRef) (name : String)
  | newClass (fields : List String)
  | newHostFunction (name : String) (behaviour : HostFunction)
  | takePrinted

/-- What an engine answers: a value, a text, nothing, an error of a script, or a bare fault. -/
inductive Answer where
  | value (value : Value)
  | text (content : String)
  | done
  | refused (error : EngineError)
  | failed (fault : Fault)

namespace Answer

/-- The values that an answer hands out. -/
def given : Answer → List Value
  | .value found => [found]
  | _ => []

/-- The fault that an answer reports. -/
def fault? : Answer → Option Fault
  | .refused (.runtime located) => some located.fault
  | .failed fault => some fault
  | _ => none

/-- The answer to a script or a call. -/
def ofOutcome : Engine.Outcome → Answer × Engine
  | (.ok found, engine) => (.value found, engine)
  | (.error error, engine) => (.refused error, engine)

end Answer

/-- The script of a command, if it has one that can be read. -/
def Command.script? : Command → Option Script
  | .eval script | .dump script | .compile script => some script
  | .evalText text => Script.ofText? text
  | _ => none

/-- The host passes on only values that have no identity or that it knows, and so do the functions that it
installs. -/
def Command.Admissible (known : List Value) : Command → Prop
  | .call _ arguments => ∀ value ∈ arguments, value.FromHost known
  | .register _ value => value.FromHost known
  | .getField object _ => .object object ∈ known
  | .newHostFunction _ behaviour => HostFunction.Polite known behaviour
  | _ => True

namespace Engine

/-- Carries a command out. The code that it runs may take a number of steps. -/
def perform (steps : Nat) (engine : Engine) : Command → Option (Answer × Engine)
  | .eval script => (engine.eval steps script).map Answer.ofOutcome
  | .evalText text => (engine.evalText steps text).map Answer.ofOutcome
  | .call name arguments => (engine.call steps name arguments).map Answer.ofOutcome
  | .dump script =>
    match engine.dump script with
    | (.ok listing, next) => some (.text listing, next)
    | (.error error, next) => some (.refused (.compile error), next)
  | .compile script =>
    match engine.compile script with
    | (.ok main, next) => some (.value (.function (.compiled main)), next)
    | (.error error, next) => some (.refused (.compile error), next)
  | .register name value => some (.done, { engine with machine := engine.machine.register name value })
  | .lookup name => some (.value (engine.machine.globals.lookup name), engine)
  | .getField object name =>
    match engine.machine.getField object name with
    | .ok value => some (.value value, engine)
    | .error fault => some (.failed fault, engine)
  | .newClass fields =>
    let (layout, machine) := engine.machine.newClass fields
    some (.value (.layout layout), { engine with machine := machine })
  | .newHostFunction name behaviour =>
    let (function, machine) := engine.machine.newHostFunction name behaviour
    some (.value (.function function), { engine with machine := machine })
  | .takePrinted =>
    let (printed, machine) := engine.machine.takePrinted
    some (.text printed, { engine with machine := machine })

/-! ### What a command compiles and runs -/

/-- The engine once the script of a command is compiled, before any code runs. -/
def prepared (engine : Engine) (command : Command) : Engine :=
  match command.script? with
  | some script => (engine.compile script).2
  | none => engine

/-- The functions of the script of a command. -/
def closures (engine : Engine) (command : Command) : List Closure :=
  match command.script? with
  | some script => script.closures engine.machine.nextIdentity
  | none => []

/-- The function of a script, if the script is accepted. -/
def main? (engine : Engine) (script : Script) : Option Routine :=
  (engine.compile script).1.toOption

/-- The compiled function that a command runs, and its arguments. -/
def runs? (engine : Engine) : Command → Option (Routine × List Value)
  | .eval script => (engine.main? script).map fun main ↦ (main, [])
  | .evalText text => (Script.ofText? text).bind fun script ↦
      (engine.main? script).map fun main ↦ (main, [])
  | .call name arguments =>
    match engine.machine.globals.lookup name with
    | .function (.compiled routine) => some (routine, arguments)
    | _ => none
  | _ => none

/-- The activity in which the code of a command begins. -/
def Begins (engine : Engine) (command : Command) (start : Activity) : Prop :=
  ∃ (routine : Routine) (arguments : List Value), engine.runs? command = some (routine, arguments) ∧
    (engine.prepared command).machine.Enters routine .undefined arguments start

/-- An activity that a command goes through. -/
def Visits (engine : Engine) (command : Command) (activity : Activity) : Prop :=
  ∃ start : Activity, engine.Begins command start ∧ start.Reaches activity

/-- Words can number the constants before the code of a command runs, and the words of all code. -/
structure Addresses (engine : Engine) (known : List Value) (command : Command) : Prop where
  constants : (engine.prepared command).machine.constants.size < Word.indexLimit
  code : ∀ routine : Routine,
    .function (.compiled routine) ∈ (engine.prepared command).machine.constants.entries ∨
      .function (.compiled routine) ∈ known →
    routine.unit.code.size < 4294967295
  main : ∀ (routine : Routine) (arguments : List Value),
    engine.runs? command = some (routine, arguments) → routine.unit.code.size < 4294967295

/-- While the code of a command runs, words can number the words on the stack. A stack with a limit that
they can number is always small. -/
def StaysSmall (engine : Engine) (command : Command) : Prop :=
  4294967296 < engine.machine.stack.limit →
    ∀ activity : Activity, engine.Visits command activity → activity.machine.stack.top ≤ 4294967296

end Engine

/-! ### Sessions -/

/-- The engines that come of commands one after the other, with the values that were handed out and the
functions that were compiled so far, the most recent ones first. -/
inductive Session : Engine → List Value → List Closure → Prop where
  | standard (limits : Limits) (sink : Sink) (strict : Bool) :
      Session ⟨Machine.standard limits sink, strict⟩ [] []
  | bare (limits : Limits) (sink : Sink) (strict : Bool) :
      Session ⟨Machine.bare limits sink, strict⟩ [] []
  | step {engine next : Engine} {known : List Value} {closures : List Closure} {command : Command}
      {steps : Nat} {answer : Answer} (hsession : Session engine known closures)
      (hadmissible : command.Admissible known) (haddresses : engine.Addresses known command)
      (hsmall : engine.StaysSmall command)
      (hperformed : engine.perform steps command = some (answer, next)) :
      Session next (answer.given ++ known) (engine.closures command ++ closures)

end ScriptMachine
