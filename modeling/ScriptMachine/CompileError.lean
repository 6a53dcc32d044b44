/-!
# Errors of the compiler

A `CompileError` is the first fault that the compiler meets in a program. It names the variable or the
field at fault and the source line. `CompileError.message` is its text and `CompileError.code` its code
in diagnostics.
-/

set_option autoImplicit false
set_option relaxedAutoImplicit false

namespace ScriptMachine

/-- The reason why a program is refused. -/
inductive CompileError where
  | redeclaration (name : String) (line : UInt32)
  | unresolvedLocal (name : String) (line : UInt32)
  | duplicateField (name : String) (line : UInt32)
  deriving DecidableEq, Repr

namespace CompileError

/-- The text of an error. -/
def message : CompileError → String
  | .redeclaration name _ => "variable '" ++ name ++ "' is already declared"
  | .unresolvedLocal name _ => "assignment to unknown local variable '" ++ name ++ "'"
  | .duplicateField name _ => "field '" ++ name ++ "' is initialized twice"

/-- The code of a kind of error. -/
def code : CompileError → String
  | .redeclaration _ _ => "SJ-C001"
  | .unresolvedLocal _ _ => "SJ-C002"
  | .duplicateField _ _ => "SJ-C003"

/-- The source line of an error. -/
def line : CompileError → UInt32
  | .redeclaration _ line => line
  | .unresolvedLocal _ line => line
  | .duplicateField _ line => line

end CompileError

end ScriptMachine
