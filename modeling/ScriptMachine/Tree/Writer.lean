import ScriptMachine.Json.Writer
import ScriptMachine.Tree.Format

/-!
# Writing trees

`Script.toText` is the JSON text of a script. The form of a node comes first among its members and its
line last; a function without a name has the name null, and the literal undefined is a string.
-/

set_option autoImplicit false
set_option relaxedAutoImplicit false

namespace ScriptMachine

/-- A source line. -/
def lineJson (line : UInt32) : Json :=
  .ofNat line.toNat

/-- A literal. -/
def Literal.toJson : Literal → Json
  | .integer value => .ofMembers [("Int", .ofInt value.toInt)]
  | .text content => .ofMembers [("Str", .ofString content)]
  | .boolean value => .ofMembers [("Bool", .boolean value)]
  | .undefined => .ofString "Undefined"

/-- The name of a function. -/
def functionNameJson : Option String → Json
  | none => .null
  | some name => .ofString name

/-- A block of nodes that are already written. -/
def blockJson (nodes : List Json) (line : UInt32) : Json :=
  .ofMembers [("instrs", .array nodes), ("line", lineJson line)]

/-- A node of a form with the parts of that form except the line. -/
def nodeJson (kind : NodeKind) (parts : List Json) (line : UInt32) : Json :=
  .ofMembers (("kind", .ofString kind.name) :: kind.parts.zip (parts ++ [lineJson line]))

mutual

/-- A node. -/
def Node.toJson : Node → Json
  | .block body => nodeJson .block [.array (nodesJson body.nodes)] body.line
  | .literal value line => nodeJson .literal [value.toJson] line
  | .call callee arguments line => nodeJson .call [callee.toJson, .array (nodesJson arguments)] line
  | .access name line => nodeJson .access [.ofString name] line
  | .assignment name value declares line =>
    nodeJson .assignment [.ofString name, value.toJson, .boolean declares] line
  | .function name parameters body line =>
    nodeJson .function
      [functionNameJson name, .array (parameters.map Json.ofString),
        blockJson (nodesJson body.nodes) body.line] line
  | .ret value line => nodeJson .ret [value.toJson] line
  | .conditional condition thenBlock elseBlock line =>
    nodeJson .conditional
      [condition.toJson, blockJson (nodesJson thenBlock.nodes) thenBlock.line,
        blockJson (nodesJson elseBlock.nodes) elseBlock.line] line
  | .object fields line => nodeJson .object [.array (fieldsJson fields)] line
  | .fieldAccess receiver name line => nodeJson .fieldAccess [receiver.toJson, .ofString name] line
  | .fieldAssignment receiver name value line =>
    nodeJson .fieldAssignment [receiver.toJson, .ofString name, value.toJson] line
  | .methodCall receiver name arguments line =>
    nodeJson .methodCall [receiver.toJson, .ofString name, .array (nodesJson arguments)] line

/-- Several nodes. -/
def nodesJson : List Node → List Json
  | [] => []
  | node :: rest => node.toJson :: nodesJson rest

/-- The fields of an object literal. -/
def fieldsJson : List (Field Node) → List Json
  | [] => []
  | field :: rest =>
    .ofMembers [("name", .ofString field.name), ("value", field.value.toJson)] :: fieldsJson rest

end

namespace Script

/-- A script. -/
def toJson (script : Script) : Json :=
  .ofMembers [("body", blockJson (nodesJson script.body.nodes) script.body.line)]

/-- The text of a script. -/
def toText (script : Script) : String :=
  script.toJson.render

end Script

end ScriptMachine
