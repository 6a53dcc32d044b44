import ScriptMachine.Engine

/-!
# Diagnostics

A `Diagnostic` is an error or a warning made ready for a reader: a message, and where they are known the
code of its kind, a source line, the name of the source, further notes, and a suggestion. Line zero means
that the line is not known (`Diagnostic.withLine`). `EngineError.diagnostic` turns the errors of the
engine into diagnostics.
-/

set_option autoImplicit false
set_option relaxedAutoImplicit false

namespace ScriptMachine

/-- How serious a diagnostic is. -/
inductive Severity where
  | error
  | warning
  deriving DecidableEq, Repr

/-- The name of a severity. -/
def Severity.name : Severity → String
  | .error => "error"
  | .warning => "warning"

/-- An error or a warning for a reader. -/
structure Diagnostic where
  severity : Severity
  code : Option String
  message : String
  line : Option UInt32
  source : Option String
  notes : List String
  suggestion : Option String
  deriving DecidableEq, Repr

namespace Diagnostic

/-- An error with a message and nothing else. -/
def error (message : String) : Diagnostic :=
  ⟨.error, none, message, none, none, [], none⟩

/-- The diagnostic with the code of its kind. -/
def withCode (code : String) (diagnostic : Diagnostic) : Diagnostic :=
  { diagnostic with code := some code }

/-- The diagnostic with a source line, unless the line is zero. -/
def withLine (line : UInt32) (diagnostic : Diagnostic) : Diagnostic :=
  if line = 0 then diagnostic else { diagnostic with line := some line }

/-- The diagnostic with the name of its source. -/
def withSource (source : String) (diagnostic : Diagnostic) : Diagnostic :=
  { diagnostic with source := some source }

/-- The diagnostic with one more note. -/
def withNote (note : String) (diagnostic : Diagnostic) : Diagnostic :=
  { diagnostic with notes := diagnostic.notes ++ [note] }

/-- The diagnostic with a suggestion. -/
def withSuggestion (suggestion : String) (diagnostic : Diagnostic) : Diagnostic :=
  { diagnostic with suggestion := some suggestion }

end Diagnostic

/-! ### Diagnostics of errors -/

/-- The diagnostic of a refused program. -/
def CompileError.diagnostic (error : CompileError) : Diagnostic :=
  let plain := ((Diagnostic.error error.message).withCode error.code).withLine error.line
  match error with
  | .redeclaration _ _ => plain.withSuggestion "assign without \x60var\x60 to reuse the variable"
  | .unresolvedLocal name _ =>
    plain.withSuggestion ("declare it first with \x60var " ++ name ++ " = ...\x60")
  | .duplicateField _ _ => plain

/-- The diagnostic of a fault in running code. -/
def LocatedFault.diagnostic (located : LocatedFault) : Diagnostic :=
  let plain := ((Diagnostic.error located.fault.message).withCode located.fault.code).withLine located.line
  let placed := plain.withNote ("in function '" ++ located.function ++ "', at " ++ located.operation)
  match located.fault with
  | .heapExhausted _ _ => placed.withSuggestion "raise the heap size with --heap-words"
  | .stackOverflow _ => placed.withSuggestion "raise the stack limit with --max-stack"
  | .unknownField _ => placed.withNote "fields can only be added in the object literal"
  | _ => placed

/-- The diagnostic of an error of the engine. -/
def EngineError.diagnostic : EngineError → Diagnostic
  | .compile error => error.diagnostic
  | .runtime located => located.diagnostic
  | .unreadable path reason =>
    (Diagnostic.error (EngineError.unreadable path reason).message).withCode
      (EngineError.unreadable path reason).code
  | .invalidTree =>
    (Diagnostic.error EngineError.invalidTree.message).withCode EngineError.invalidTree.code

end ScriptMachine
