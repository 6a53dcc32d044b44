import ScriptMachine.CommandLine.Outcome

/-!
# The program

The program reads the file that its arguments name, carries the request out, and writes what came of it.
Everything that is decided is decided by `Request.outcome`.
-/

set_option autoImplicit false
set_option relaxedAutoImplicit false

namespace ScriptMachine

/-- More steps than a run will ever take. -/
def stepBudget : Nat :=
  UInt64.size / 4

/-- The text of an error of the file system. -/
def reasonText : IO.Error → String
  | .userError _ => "stream did not contain valid UTF-8"
  | .noFileOrDirectory _ _ _ => "No such file or directory (os error 2)"
  | .permissionDenied _ _ _ => "Permission denied (os error 13)"
  | .inappropriateType (some _) _ _ => "Not a directory (os error 20)"
  | .inappropriateType none _ _ => "Is a directory (os error 21)"
  | .invalidArgument (some _) _ _ => "File name too long (os error 36)"
  | other => toString other

/-- The content of a file, or the reason why it cannot be read. -/
def contentOf (path : String) : IO (Except String String) := do
  try
    return .ok (← IO.FS.readFile path)
  catch error => return .error (reasonText error)

/-- The path of the file that a request needs. -/
def Request.path? : Request → Option String
  | .version => none
  | .run path _ => some path
  | .dump path => some path

/-- Writes an outcome and tells the exit code. -/
def present (outcome : Outcome) : IO UInt32 := do
  IO.print outcome.output
  match outcome with
  | .misuse => IO.eprintln "usage: stackjs [-v...] (run [options] | dump) path"
  | .failed _ _ report => IO.eprint report
  | .finished _ => pure ()
  return outcome.exitCode

end ScriptMachine

/-- The program. -/
def main (arguments : List String) : IO UInt32 := do
  match ScriptMachine.Request.ofArguments? arguments with
  | none => ScriptMachine.present .misuse
  | some request =>
    let content ←
      match request.path? with
      | none => pure (.ok "")
      | some path => ScriptMachine.contentOf path
    match request.outcome ScriptMachine.stepBudget fun _ ↦ content with
    | none => return 1
    | some outcome => ScriptMachine.present outcome
