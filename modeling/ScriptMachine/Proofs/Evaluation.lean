import ScriptMachine.Proofs.Sites
import ScriptMachine.Proofs.World

/-!
# What a program means

`Node.evaluate` gives a program its meaning by the tree alone. A function body is evaluated in a `Locale`:
the world, and the variables of this one call by name. Operands are evaluated from left to right, what is
called before its arguments; a statement has the value undefined; a return ends the call from wherever it
stands. A `Program` knows what its literals denote: the identity of a function leads to its `Closure`, and
the site of a function literal to the one function that this compilation has made for it.

`Program.apply` calls a function with a bound on how deep calls are nested. Evaluation stops with a fault,
or because the bound was too small; otherwise it does not depend on the bound.
-/

set_option autoImplicit false
set_option relaxedAutoImplicit false

namespace ScriptMachine

/-! ### Evaluations -/

/-- The reason why a call has no value: a fault, or calls nested too deep. -/
inductive Stop where
  | failed (fault : Fault)
  | exhausted

/-- What ends a part of a function body early. -/
inductive Signal where
  | returned (value : Value)
  | stopped (stop : Stop)

/-- The world and the variables of one call by name. -/
structure Locale where
  world : World
  bindings : String → Option Value

/-- The evaluation of a part of a function body. -/
abbrev Evaluation :=
  EStateM Signal Locale

/-- How a value is called with a receiver and arguments. -/
abbrev Callable :=
  Value → Value → List Value → EStateM Stop World Value

namespace Evaluation

/-- The value of a name: that of the variable, or the global one where there is no variable. -/
def read (name : String) : Evaluation Value := fun locale ↦
  .ok ((locale.bindings name).getD (locale.world.globals.lookup name)) locale

/-- Assigns a variable. -/
def assign (name : String) (value : Value) : Evaluation Unit := fun locale ↦
  .ok () { locale with
    bindings := fun other ↦ if other = name then some value else locale.bindings other }

/-- Binds a global. -/
def register (name : String) (value : Value) : Evaluation Unit := fun locale ↦
  .ok () { locale with world := locale.world.register name value }

/-- Makes an object. -/
def construct (layout : Class) (fields : List Value) : Evaluation Value := fun locale ↦
  match locale.world.allocate layout fields with
  | .ok (object, world) => .ok object { locale with world := world }
  | .error fault => .error (.stopped (.failed fault)) locale

/-- Reads a field of an object. -/
def readField (receiver : Value) (name : String) : Evaluation Value := fun locale ↦
  match locale.world.readField receiver name with
  | .ok value => .ok value locale
  | .error fault => .error (.stopped (.failed fault)) locale

/-- Replaces a field of an object. -/
def writeField (receiver : Value) (name : String) (value : Value) : Evaluation Unit := fun locale ↦
  match locale.world.writeField receiver name value with
  | .ok world => .ok () { locale with world := world }
  | .error fault => .error (.stopped (.failed fault)) locale

/-- Calls a value. The variables of the caller stay as they are. -/
def call (apply : Callable) (callee receiver : Value) (arguments : List Value) : Evaluation Value :=
  fun locale ↦
    match apply callee receiver arguments locale.world with
    | .ok value world => .ok value { locale with world := world }
    | .error stop world => .error (.stopped stop) { locale with world := world }

end Evaluation

/-! ### Programs -/

/-- The functions of a program, the most recent ones first, and the constants of its compilation. -/
structure Program where
  closures : List Closure
  constants : ConstantTable

namespace Program

/-- The function with an identity. -/
def closure? (program : Program) (identity : Nat) : Option Closure :=
  program.closures.find? fun closure ↦ closure.identity == identity

/-- The function that was made for the literal with an identity. -/
def functionAt (program : Program) (identity : Nat) : Value :=
  (program.constants.entries.find? fun entry ↦
    match entry with
    | .function (.compiled routine) => routine.identity == identity
    | _ => false).getD .undefined

end Program

/-! ### Trees -/

mutual

/-- Evaluates a node whose sites have the identities from the first one on. -/
def Node.evaluate (program : Program) (apply : Callable) (first : Nat) : Node → Evaluation Value
  | .block body => do
    evaluateStatements program apply first body.nodes
    return .undefined
  | .literal value _ => return value.toValue
  | .access name _ => Evaluation.read name
  | .assignment name value _ _ => do
    let result ← value.evaluate program apply first
    Evaluation.assign name result
    return .undefined
  | .function name _ body _ => do
    let callee := program.functionAt (first + sitesOf body.nodes)
    match name with
    | none => return callee
    | some bound =>
      Evaluation.register bound callee
      return callee
  | .call callee arguments _ => do
    let function ← callee.evaluate program apply first
    let values ← evaluateValues program apply (first + callee.sites) arguments
    Evaluation.call apply function .undefined values
  | .methodCall receiver name arguments _ => do
    let object ← receiver.evaluate program apply first
    let function ← Evaluation.readField object name
    let values ← evaluateValues program apply (first + receiver.sites) arguments
    Evaluation.call apply function object values
  | .ret value _ => do
    let result ← value.evaluate program apply first
    throw (.returned result)
  | .conditional condition thenBlock elseBlock _ => do
    let decision ← condition.evaluate program apply first
    (if decision.isFalse then
      evaluateStatements program apply (first + condition.sites + sitesOf thenBlock.nodes) elseBlock.nodes
    else
      evaluateStatements program apply (first + condition.sites) thenBlock.nodes)
    return .undefined
  | .object fields _ => do
    let values ← evaluateFields program apply first fields
    Evaluation.construct ⟨first + fieldSites fields, fields.map Field.name⟩ values
  | .fieldAccess receiver name _ => do
    let object ← receiver.evaluate program apply first
    Evaluation.readField object name
  | .fieldAssignment receiver name value _ => do
    let object ← receiver.evaluate program apply first
    let result ← value.evaluate program apply (first + receiver.sites)
    Evaluation.writeField object name result
    return .undefined

/-- Evaluates nodes from left to right to their values. -/
def evaluateValues (program : Program) (apply : Callable) (first : Nat) :
    List Node → Evaluation (List Value)
  | [] => return []
  | node :: rest => do
    let value ← node.evaluate program apply first
    let values ← evaluateValues program apply (first + node.sites) rest
    return value :: values

/-- Evaluates nodes from left to right and drops their values. -/
def evaluateStatements (program : Program) (apply : Callable) (first : Nat) :
    List Node → Evaluation Unit
  | [] => return ()
  | node :: rest => do
    let _ ← node.evaluate program apply first
    evaluateStatements program apply (first + node.sites) rest

/-- Evaluates the initial values of fields from left to right. -/
def evaluateFields (program : Program) (apply : Callable) (first : Nat) :
    List (Field Node) → Evaluation (List Value)
  | [] => return []
  | field :: rest => do
    let value ← field.value.evaluate program apply first
    let values ← evaluateFields program apply (first + field.value.sites) rest
    return value :: values

end

/-! ### Calls -/

/-- The variables at the beginning of a call: the receiver, the arguments in the order of the parameters,
and every variable that the body declares outside nested functions, which is undefined. -/
def Closure.bindings (closure : Closure) (receiver : Value) (arguments : List Value) :
    String → Option Value := fun name ↦
  if name = SlotTable.receiverName then some receiver
  else if name ∈ closure.parameters then arguments[closure.parameters.idxOf name]?
  else if name ∈ (declarationsOf closure.body.nodes).map Declaration.name then some .undefined
  else none

/-- Evaluates the body of a function. A body that comes to its end returns undefined. -/
def Closure.run (closure : Closure) (program : Program) (apply : Callable) (receiver : Value)
    (arguments : List Value) : EStateM Stop World Value := fun world ↦
  match evaluateStatements program apply closure.firstSite closure.body.nodes
      ⟨world, closure.bindings receiver arguments⟩ with
  | .ok _ locale => .ok .undefined locale.world
  | .error (.returned value) locale => .ok value locale.world
  | .error (.stopped stop) locale => .error stop locale.world

/-- Carries a native function out. -/
def Native.apply (operation : Native) (receiver : Value) (arguments : List Value) :
    EStateM Stop World Value := fun world ↦
  match World.applyNative operation receiver arguments world with
  | .ok value world => .ok value world
  | .error fault world => .error (.failed fault) world

namespace Program

/-- Calls a value, given how the body of a function is entered. The value has to be a function, and a
function of the program has to have as many parameters as there are arguments. -/
def dispatch (program : Program) (enter : Closure → Value → List Value → EStateM Stop World Value) :
    Callable := fun callee receiver arguments ↦
  match callee with
  | .function (.native _ _ operation) => operation.apply receiver arguments
  | .function (.compiled routine) =>
    match program.closure? routine.identity with
    | some closure =>
      if arguments.length = closure.parameters.length then enter closure receiver arguments
      else
        throw (.failed
          (.arityMismatch closure.name closure.parameters.length arguments.length))
    | none => throw (.failed (.typeMismatch "function" callee.typeName))
  | other => throw (.failed (.typeMismatch "function" other.typeName))

/-- Calls a value with function bodies nested no deeper than a bound. -/
def apply (program : Program) : (depth : Nat) → Callable
  | 0 => program.dispatch fun _ _ _ ↦ throw .exhausted
  | depth + 1 => program.dispatch fun closure ↦ closure.run program (program.apply depth)

end Program

end ScriptMachine
