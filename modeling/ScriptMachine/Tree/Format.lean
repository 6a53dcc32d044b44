import ScriptMachine.Json.Basic
import ScriptMachine.Tree.Basic

/-!
# The JSON format of trees

A node is written as an object whose member `kind` names its form (`NodeKind.name`), beside one member
for each of its parts (`NodeKind.parts`). This module names the forms and their parts for both
directions; `Script.toJson` writes trees, and `Script.ofText?` reads them.
-/

set_option autoImplicit false
set_option relaxedAutoImplicit false

namespace ScriptMachine

/-- The forms of nodes, in the order in which the format numbers them. -/
inductive NodeKind where
  | block
  | literal
  | call
  | access
  | assignment
  | function
  | ret
  | conditional
  | object
  | fieldAccess
  | fieldAssignment
  | methodCall
  deriving DecidableEq, Repr

namespace NodeKind

/-- All forms in order. -/
def all : List NodeKind :=
  [.block, .literal, .call, .access, .assignment, .function, .ret, .conditional, .object, .fieldAccess,
    .fieldAssignment, .methodCall]

/-- The name of a form. -/
def name : NodeKind → String
  | .block => "Block"
  | .literal => "Literal"
  | .call => "FunCall"
  | .access => "LocalVarAccess"
  | .assignment => "LocalVarAssignment"
  | .function => "Fun"
  | .ret => "Return"
  | .conditional => "If"
  | .object => "New"
  | .fieldAccess => "FieldAccess"
  | .fieldAssignment => "FieldAssignment"
  | .methodCall => "MethodCall"

/-- The names of the parts of a form in order. The line always comes last. -/
def parts : NodeKind → List String
  | .block => ["instrs", "line"]
  | .literal => ["value", "line"]
  | .call => ["callee", "args", "line"]
  | .access => ["name", "line"]
  | .assignment => ["name", "expr", "declaration", "line"]
  | .function => ["name", "parameters", "body", "line"]
  | .ret => ["expr", "line"]
  | .conditional => ["condition", "then_block", "else_block", "line"]
  | .object => ["fields", "line"]
  | .fieldAccess => ["receiver", "name", "line"]
  | .fieldAssignment => ["receiver", "name", "expr", "line"]
  | .methodCall => ["receiver", "name", "args", "line"]

/-- The form with a name. -/
def ofName? (name : String) : Option NodeKind :=
  all.find? fun kind ↦ kind.name == name

/-- Every form is found by its name. -/
@[simp] theorem ofName?_name (kind : NodeKind) : ofName? kind.name = some kind := by
  cases kind <;> decide

end NodeKind

/-- The form of a node. -/
def Node.kind : Node → NodeKind
  | .block _ => .block
  | .literal _ _ => .literal
  | .call _ _ _ => .call
  | .access _ _ => .access
  | .assignment _ _ _ _ => .assignment
  | .function _ _ _ _ => .function
  | .ret _ _ => .ret
  | .conditional _ _ _ _ => .conditional
  | .object _ _ => .object
  | .fieldAccess _ _ _ => .fieldAccess
  | .fieldAssignment _ _ _ _ => .fieldAssignment
  | .methodCall _ _ _ _ => .methodCall

end ScriptMachine
