import ScriptMachine.Diagnostic.Basic
import ScriptMachine.Json.Writer

/-!
# Diagnostics for programs

`Diagnostic.toRecord` writes a diagnostic as a JSON object on one line. Its members are in alphabetical
order, and what the diagnostic does not have is left out, save the list of notes, which is always there.
-/

set_option autoImplicit false
set_option relaxedAutoImplicit false

namespace ScriptMachine

namespace Diagnostic

/-- The member of something that may be absent. -/
def optionalMember {α : Type} (name : String) (write : α → Json) : Option α → List (String × Json)
  | some value => [(name, write value)]
  | none => []

/-- The members of a diagnostic in order. -/
def members (diagnostic : Diagnostic) : List (String × Json) :=
  optionalMember "code" Json.ofString diagnostic.code ++
    optionalMember "line" (fun line ↦ Json.ofNat line.toNat) diagnostic.line ++
    [("message", Json.ofString diagnostic.message),
      ("notes", .array (diagnostic.notes.map Json.ofString)),
      ("severity", Json.ofString diagnostic.severity.name)] ++
    optionalMember "source" Json.ofString diagnostic.source ++
    optionalMember "suggestion" Json.ofString diagnostic.suggestion

/-- The text of a diagnostic as a JSON object. -/
def toRecord (diagnostic : Diagnostic) : String :=
  (Json.ofMembers diagnostic.members).render

end Diagnostic

end ScriptMachine
