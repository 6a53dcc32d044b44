import ScriptMachine.Tree.Basic

/-!
# Building trees by hand

One function per form of the language, for trees that come from no source text: all nodes and blocks are
on line zero, and `Node.withLine` puts a node somewhere else.
-/

set_option autoImplicit false
set_option relaxedAutoImplicit false

namespace ScriptMachine

namespace Node

/-- A block without a line. -/
def blockOf (nodes : List Node) : Block Node :=
  ⟨nodes, 0⟩

/-- An integer literal. -/
def integer (value : Int64) : Node :=
  .literal (.integer value) 0

/-- A text literal. -/
def text (content : String) : Node :=
  .literal (.text content) 0

/-- A literal truth value. -/
def boolean (value : Bool) : Node :=
  .literal (.boolean value) 0

/-- The literal undefined. -/
def undefined : Node :=
  .literal .undefined 0

/-- A variable or a global. -/
def named (name : String) : Node :=
  .access name 0

/-- A declaration with its initial value. -/
def declare (name : String) (value : Node) : Node :=
  .assignment name value true 0

/-- An assignment to a variable declared elsewhere. -/
def assign (name : String) (value : Node) : Node :=
  .assignment name value false 0

/-- A call. -/
def apply (callee : Node) (arguments : List Node) : Node :=
  .call callee arguments 0

/-- A call of the function that is bound to a name, with two arguments. -/
def operation (symbol : String) (left right : Node) : Node :=
  apply (named symbol) [left, right]

/-- A function with or without a name. -/
def lambda (name : Option String) (parameters : List String) (body : List Node) : Node :=
  .function name parameters (blockOf body) 0

/-- A return. -/
def giveBack (value : Node) : Node :=
  .ret value 0

/-- A choice between two blocks. -/
def choose (condition : Node) (thenNodes elseNodes : List Node) : Node :=
  .conditional condition (blockOf thenNodes) (blockOf elseNodes) 0

/-- An object literal. -/
def record (fields : List (String × Node)) : Node :=
  .object (fields.map fun field ↦ ⟨field.1, field.2⟩) 0

/-- A field of an object. -/
def getField (receiver : Node) (name : String) : Node :=
  .fieldAccess receiver name 0

/-- An assignment to a field of an object. -/
def setField (receiver : Node) (name : String) (value : Node) : Node :=
  .fieldAssignment receiver name value 0

/-- A call of the function in a field of an object, with the object as receiver. -/
def invoke (receiver : Node) (name : String) (arguments : List Node) : Node :=
  .methodCall receiver name arguments 0

/-- Nodes in a block of their own. -/
def sequence (nodes : List Node) : Node :=
  .block (blockOf nodes)

end Node

end ScriptMachine
