import ScriptMachine.Sink
import ScriptMachine.Value

/-!
# Builtin operations

Operators are ordinary functions that are bound to their `Builtin.symbol`. Arithmetic takes two
integers and wraps around at 64 bits, with quotients cut towards zero; equality takes any two values;
order takes two integers or two texts, the latter compared by code points. A comparison answers with
the integer one or zero, which is what a conditional jump tests. `Builtin.apply` carries an operation
out: it is a function of the arguments alone, save that printing writes to the sink.
-/

set_option autoImplicit false
set_option relaxedAutoImplicit false

namespace ScriptMachine

namespace Builtin

/-- All builtin operations. -/
def all : List Builtin :=
  [.print, .add, .subtract, .multiply, .divide, .remainder, .equal, .unequal, .less, .atMost, .greater,
    .atLeast]

/-- The name that an operation is bound to. -/
def symbol : Builtin → String
  | .print => "print"
  | .add => "+"
  | .subtract => "-"
  | .multiply => "*"
  | .divide => "/"
  | .remainder => "%"
  | .equal => "=="
  | .unequal => "!="
  | .less => "<"
  | .atMost => "<="
  | .greater => ">"
  | .atLeast => ">="

/-! ### Answers -/

/-- The integer that stands for a truth value. -/
def truth (holds : Bool) : Value :=
  .integer (if holds then 1 else 0)

/-- An argument of an arithmetic operation. -/
def integerArgument : Value → Except Fault Int64
  | .integer value => .ok value
  | other => .error (.typeMismatch "integer" other.typeName)

/-- An arithmetic operation on two values; the first one is checked first. -/
def arithmetic (operation : Int64 → Int64 → Except Fault Int64) (left right : Value) :
    Except Fault Value := do
  let left ← integerArgument left
  let right ← integerArgument right
  return .integer (← operation left right)

/-- A quotient or remainder, which has to have a divisor. -/
def divided (operation : Int64 → Int64 → Int64) (dividend divisor : Int64) : Except Fault Int64 :=
  if divisor = 0 then .error .divisionByZero else .ok (operation dividend divisor)

/-- Whether a value can be compared with one of its own type. -/
def isOrdered : Value → Bool
  | .integer _ | .text _ => true
  | _ => false

/-- The order of two integers or of two texts. Where they differ in type, the second one is at fault
when the first one has an order. -/
def ordering (left right : Value) : Except Fault Ordering :=
  match left, right with
  | .integer left, .integer right => .ok (compare left.toInt right.toInt)
  | .text left, .text right => .ok (compare left right)
  | _, _ =>
    .error (.typeMismatch "integer or string"
      (if isOrdered left then right.typeName else left.typeName))

/-- A comparison that tests the order of its arguments. -/
def comparison (test : Ordering → Bool) (left right : Value) : Except Fault Value := do
  return truth (test (← ordering left right))

/-- The result of an operation other than printing on its two arguments. -/
def combine : Builtin → Value → Value → Except Fault Value
  | .print, _, _ => .ok .undefined
  | .add, left, right => arithmetic (fun x y ↦ .ok (x + y)) left right
  | .subtract, left, right => arithmetic (fun x y ↦ .ok (x - y)) left right
  | .multiply, left, right => arithmetic (fun x y ↦ .ok (x * y)) left right
  | .divide, left, right => arithmetic (divided (· / ·)) left right
  | .remainder, left, right => arithmetic (divided (· % ·)) left right
  | .equal, left, right => .ok (truth (left.same right))
  | .unequal, left, right => .ok (truth (!left.same right))
  | .less, left, right => comparison Ordering.isLT left right
  | .atMost, left, right => comparison Ordering.isLE left right
  | .greater, left, right => comparison Ordering.isGT left right
  | .atLeast, left, right => comparison Ordering.isGE left right

/-- The line that printing some arguments writes. -/
def printedLine (arguments : List Value) : String :=
  " ".intercalate (arguments.map Value.toText)

/-- Carries an operation out. Printing takes any number of arguments, and every other operation two. -/
def apply (operation : Builtin) (arguments : List Value) : EStateM Fault Sink Value :=
  match operation, arguments with
  | .print, _ => do
    Sink.printLine (printedLine arguments)
    return .undefined
  | _, [left, right] =>
    match combine operation left right with
    | .ok value => pure value
    | .error fault => throw fault
  | _, _ => throw (.arityMismatch operation.symbol 2 arguments.length)

end Builtin

end ScriptMachine
