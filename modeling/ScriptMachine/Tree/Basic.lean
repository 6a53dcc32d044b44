/-!
# Syntax trees

A program is a tree of `Node`s. A node is an expression, but some of them, the statements, leave no
value: `Node.isStatement` says which. Every node and every block carries the source line it came from.
A `Script` is a complete program, whose body is the body of an implicit function without parameters.

`Block` and `Field` are written over an arbitrary type of nodes because `Node` refers to them.
-/

set_option autoImplicit false
set_option relaxedAutoImplicit false

namespace ScriptMachine

/-! ### Parts of nodes -/

/-- Nodes that are evaluated in order. -/
structure Block (node : Type) where
  nodes : List node
  line : UInt32
  deriving BEq, DecidableEq, Repr

/-- One field of an object literal with its initial value. -/
structure Field (node : Type) where
  name : String
  value : node
  deriving BEq, DecidableEq, Repr

/-- A value that stands in the program text. -/
inductive Literal where
  | integer (value : Int64)
  | text (content : String)
  | boolean (value : Bool)
  | undefined
  deriving BEq, DecidableEq, Repr

/-! ### Nodes -/

/-- An expression of the language. An assignment may declare its variable, a function may have a name
to which it is bound when it is evaluated, and a field of an object is read, assigned or called by its
name. -/
inductive Node where
  | block (body : Block Node)
  | literal (value : Literal) (line : UInt32)
  | call (callee : Node) (arguments : List Node) (line : UInt32)
  | access (name : String) (line : UInt32)
  | assignment (name : String) (value : Node) (declares : Bool) (line : UInt32)
  | function (name : Option String) (parameters : List String) (body : Block Node) (line : UInt32)
  | ret (value : Node) (line : UInt32)
  | conditional (condition : Node) (thenBlock elseBlock : Block Node) (line : UInt32)
  | object (fields : List (Field Node)) (line : UInt32)
  | fieldAccess (receiver : Node) (name : String) (line : UInt32)
  | fieldAssignment (receiver : Node) (name : String) (value : Node) (line : UInt32)
  | methodCall (receiver : Node) (name : String) (arguments : List Node) (line : UInt32)
  deriving BEq, Repr

namespace Node

/-- The source line of a node; a block node has the line of its block. -/
def line : Node → UInt32
  | .block body => body.line
  | .literal _ line => line
  | .call _ _ line => line
  | .access _ line => line
  | .assignment _ _ _ line => line
  | .function _ _ _ line => line
  | .ret _ line => line
  | .conditional _ _ _ line => line
  | .object _ line => line
  | .fieldAccess _ _ line => line
  | .fieldAssignment _ _ _ line => line
  | .methodCall _ _ _ line => line

/-- The node with its own line replaced; its children keep theirs. -/
def withLine (line : UInt32) : Node → Node
  | .block body => .block { body with line := line }
  | .literal value _ => .literal value line
  | .call callee arguments _ => .call callee arguments line
  | .access name _ => .access name line
  | .assignment name value declares _ => .assignment name value declares line
  | .function name parameters body _ => .function name parameters body line
  | .ret value _ => .ret value line
  | .conditional condition thenBlock elseBlock _ => .conditional condition thenBlock elseBlock line
  | .object fields _ => .object fields line
  | .fieldAccess receiver name _ => .fieldAccess receiver name line
  | .fieldAssignment receiver name value _ => .fieldAssignment receiver name value line
  | .methodCall receiver name arguments _ => .methodCall receiver name arguments line

/-- Whether a node leaves no value. Every other node leaves exactly one. -/
def isStatement : Node → Bool
  | .block _ | .conditional _ _ _ _ | .assignment _ _ _ _ | .fieldAssignment _ _ _ _ | .ret _ _ => true
  | _ => false

/-- The replaced line is the line of the node. -/
@[simp] theorem line_withLine (line : UInt32) (node : Node) : (node.withLine line).line = line := by
  cases node <;> rfl

end Node

/-! ### Scripts -/

/-- A complete program. -/
structure Script where
  body : Block Node
  deriving BEq, Repr

/-- The script of some nodes, with line one for its body. -/
def Script.ofNodes (nodes : List Node) : Script :=
  ⟨⟨nodes, 1⟩⟩

end ScriptMachine
