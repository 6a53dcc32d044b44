import ScriptMachine.CommandLine.Arguments
import ScriptMachine.Diagnostic.Record
import ScriptMachine.Diagnostic.Terminal

/-!
# Carrying out a request

`Request.outcome` carries a request out: it reads the script through a function that is handed in, and
then runs or dumps it. A script that runs to its end shows its value on a line of its own, unless that is
undefined; what it printed comes before. Everything else ends with a report of the error
(`EngineError.report`). `Outcome.ofArguments` starts from the arguments, and `Outcome.exitCode` is what
the program tells the system.
-/

set_option autoImplicit false
set_option relaxedAutoImplicit false

namespace ScriptMachine

/-- How the program ended: its arguments did not fit, it did what was asked, or it came upon an error
that it reports. -/
inductive Outcome where
  | misuse
  | finished (output : String)
  | failed (output : String) (error : EngineError) (report : String)
  deriving DecidableEq, Repr

namespace Outcome

/-- The exit code of an outcome. -/
def exitCode : Outcome → UInt32
  | .misuse => 2
  | .finished _ => 0
  | .failed _ _ _ => 1

/-- What was written to the output. -/
def output : Outcome → String
  | .misuse => ""
  | .finished output => output
  | .failed output _ _ => output

end Outcome

/-- The report of an error in a file. -/
def EngineError.report (error : EngineError) (path : String) (form : ReportForm) : String :=
  let diagnostic := error.diagnostic.withSource path
  match form with
  | .terminal => diagnostic.toTerminal false
  | .record => diagnostic.toRecord ++ "\n"

/-- The line that shows the value of a script. -/
def Value.resultLine : Value → String
  | .undefined => ""
  | value => value.toText ++ "\n"

namespace Request

/-- The name and the version of the program. -/
def versionLine : String :=
  "stackjs 0.4.0\n"

/-- The script in a file, given what reading the file gives. -/
def scriptOf (path : String) (content : Except String String) : Except EngineError Script :=
  match content with
  | .error reason => .error (.unreadable path reason)
  | .ok text =>
    match Script.ofText? text with
    | none => .error .invalidTree
    | some script => .ok script

/-- Runs a script in at most a number of steps. -/
def runScript (steps : Nat) (path : String) (options : RunOptions) (script : Script) : Option Outcome :=
  let engine : Engine := ⟨Machine.standard options.limits (Sink.ofBudget none), options.strict⟩
  (engine.eval steps script).map fun outcome ↦
    let printed := outcome.2.machine.sink.written
    match outcome.1 with
    | .ok value => .finished (printed ++ value.resultLine)
    | .error error => .failed printed error (error.report path options.form)

/-- Dumps a script. -/
def dumpScript (path : String) (script : Script) : Outcome :=
  let engine : Engine := ⟨Machine.standard Limits.standard (Sink.ofBudget none), false⟩
  match (engine.dump script).1 with
  | .ok listing => .finished listing
  | .error error => .failed "" (.compile error) ((EngineError.compile error).report path .terminal)

/-- Carries a request out. A script may take only a number of steps, and there is no outcome when they do
not suffice. -/
def outcome (steps : Nat) (readFile : String → Except String String) : Request → Option Outcome
  | .version => some (.finished versionLine)
  | .run path options =>
    match scriptOf path (readFile path) with
    | .error error => some (.failed "" error (error.report path options.form))
    | .ok script => runScript steps path options script
  | .dump path =>
    match scriptOf path (readFile path) with
    | .error error => some (.failed "" error (error.report path .terminal))
    | .ok script => some (dumpScript path script)

end Request

/-- What the program does for some arguments. -/
def Outcome.ofArguments (steps : Nat) (readFile : String → Except String String)
    (arguments : List String) : Option Outcome :=
  match Request.ofArguments? arguments with
  | none => some .misuse
  | some request => request.outcome steps readFile

end ScriptMachine
