import ScriptMachine.Code.Unit

/-!
# Values

A `Value` is what a program computes with: undefined, a 64-bit integer that wraps around, a text, a
truth value, a function, a class, a reference to an object on the heap, or the global scope itself.
A `Class` is the field layout that all objects built at one place of a program share. A `Function` is
either a `Routine`, which is compiled, or a native, which is a `Builtin` operation or one that the host
of the machine has installed.

Functions and classes carry an identity, and the language tells them apart by it alone: `Value.same`
is the equality that a program sees, while the derived equality of `Value` compares every part.
`Value.typeName` and `Value.text` are what a program and its error messages show of a value.
-/

set_option autoImplicit false
set_option relaxedAutoImplicit false

namespace ScriptMachine

/-! ### Classes and functions -/

/-- The field layout of the objects built at one place of a program: the field names in slot order. -/
structure Class where
  identity : Nat
  fields : List String
  deriving DecidableEq, Repr

/-- The slot of a field, which is the first position of its name. -/
def Class.slotOf? (layout : Class) (name : String) : Option Nat :=
  layout.fields.findIdx? fun field ↦ field == name

/-- The number of fields of each object of a class. -/
def Class.fieldCount (layout : Class) : Nat :=
  layout.fields.length

/-- The operations that every machine offers: printing, arithmetic, equality and order. -/
inductive Builtin where
  | print
  | add
  | subtract
  | multiply
  | divide
  | remainder
  | equal
  | unequal
  | less
  | atMost
  | greater
  | atLeast
  deriving DecidableEq, Repr

/-- What a native function does: a builtin operation, or the one at a position among those that the
host has installed. -/
inductive Native where
  | builtin (operation : Builtin)
  | host (position : Nat)
  deriving DecidableEq, Repr

/-- A compiled function. -/
structure Routine where
  identity : Nat
  name : String
  unit : CodeUnit
  deriving DecidableEq, Repr

/-- A function of the language. -/
inductive Function where
  | native (identity : Nat) (name : String) (operation : Native)
  | compiled (routine : Routine)
  deriving DecidableEq, Repr

/-- What tells a function from every other function. -/
def Function.identity : Function → Nat
  | .native identity _ _ => identity
  | .compiled routine => routine.identity

/-- The name that a function shows. -/
def Function.name : Function → String
  | .native _ name _ => name
  | .compiled routine => routine.name

/-- The compiled form of a function, which a native function does not have. -/
def Function.routine? : Function → Option Routine
  | .native _ _ _ => none
  | .compiled routine => some routine

/-! ### Values -/

/-- A reference to the object that starts at a heap index, with the class found in its header. -/
structure ObjectRef where
  index : UInt32
  layout : Class
  deriving DecidableEq, Repr

/-- What a program computes with. -/
inductive Value where
  | undefined
  | integer (value : Int64)
  | text (content : String)
  | boolean (value : Bool)
  | function (callee : Function)
  | layout (shape : Class)
  | object (reference : ObjectRef)
  | globalScope
  deriving DecidableEq

namespace Value

/-- The name of the type of a value. -/
def typeName : Value → String
  | .undefined => "undefined"
  | .integer _ => "integer"
  | .text _ => "string"
  | .boolean _ => "boolean"
  | .function _ => "function"
  | .layout _ => "class"
  | .object _ => "object"
  | .globalScope => "global"

/-- The names of the fields of a class between braces. -/
def fieldList (shape : Class) : String :=
  "\x7b" ++ ", ".intercalate shape.fields ++ "\x7d"

/-- The text of a value, as it is printed. -/
def toText : Value → String
  | .undefined => "undefined"
  | .integer value => toString value.toInt
  | .text content => content
  | .boolean true => "true"
  | .boolean false => "false"
  | .function callee => "function " ++ callee.name
  | .layout shape => "class " ++ fieldList shape
  | .object reference => "object@" ++ toString reference.index.toNat ++ " " ++ fieldList reference.layout
  | .globalScope => "global"

/-- The equality of the language: functions and classes are the same when their identities are, and
objects when they start at the same heap index. -/
def same : Value → Value → Bool
  | .undefined, .undefined => true
  | .integer left, .integer right => left == right
  | .text left, .text right => left == right
  | .boolean left, .boolean right => left == right
  | .function left, .function right => left.identity == right.identity
  | .layout left, .layout right => left.identity == right.identity
  | .object left, .object right => left.index == right.index
  | .globalScope, .globalScope => true
  | _, _ => false

/-- Every value is the same as itself. -/
@[simp] theorem same_refl : (value : Value) → value.same value = true
  | .undefined => rfl
  | .integer value => beq_self_eq_true value
  | .text content => beq_self_eq_true content
  | .boolean value => beq_self_eq_true value
  | .function callee => beq_self_eq_true callee.identity
  | .layout shape => beq_self_eq_true shape.identity
  | .object reference => beq_self_eq_true reference.index
  | .globalScope => rfl

/-- Sameness does not depend on the side. -/
theorem same_comm (left right : Value) : left.same right = right.same left := by
  cases left <;> cases right <;> first | rfl | exact BEq.comm

end Value

end ScriptMachine
