import ScriptMachine.Code.Fragment
import ScriptMachine.ConstantTable
import ScriptMachine.Encoding
import ScriptMachine.Slots

/-!
# From trees to code

`compileScript` turns a program into the function of its body, and `compileFunction` any body with
parameters. Every function of the program becomes a `Routine` of its own and a constant of the code
around it. The constants go into the table of a `Workspace`, which also supplies the identities of the
new functions and classes; a program that is refused leaves behind the constants it had registered by
then.

`lowerNode` gives the `Fragment` of a node. It leaves one value on the stack, or none when the node is a
statement; `valueOf` adds an undefined where a statement stands for a value, and `statementOf` drops the
value where an expression stands for a statement. Operands come in the order in which they are
evaluated.
-/

set_option autoImplicit false
set_option relaxedAutoImplicit false

namespace ScriptMachine

/-! ### The workspace of a compilation -/

/-- The constants registered so far and the next identity. -/
structure Workspace where
  constants : ConstantTable
  nextIdentity : Nat

/-- A part of a compilation, which the first fault of the program ends. -/
abbrev Lowering :=
  EStateM CompileError Workspace

namespace Lowering

/-- The word of a value in the constant table. -/
def constant (value : Value) : Lowering Word := fun workspace ↦
  let (word, constants) := workspace.constants.box value
  .ok word { workspace with constants := constants }

/-- An identity that nothing else has. -/
def freshIdentity : Lowering Nat := fun workspace ↦
  .ok workspace.nextIdentity { workspace with nextIdentity := workspace.nextIdentity + 1 }

/-- The word of a literal. A small integer needs no constant. -/
def literalWord : Literal → Lowering Word
  | .integer value =>
    match Word.ofInteger? value with
    | some word => pure word
    | none => constant (.integer value)
  | .text content => constant (.text content)
  | .boolean value => constant (.boolean value)
  | .undefined => pure Word.undefined

/-! ### Pieces of code -/

/-- The code that leaves undefined on the stack. -/
def undefinedAt (line : UInt32) : Fragment :=
  [.plain (.constant Word.undefined) line]

/-- The code of a node where exactly one value is wanted. -/
def valueOf (node : Node) (code : Fragment) : Fragment :=
  if node.isStatement then code ++ undefinedAt node.line else code

/-- The code of a node where no value is wanted. -/
def statementOf (node : Node) (code : Fragment) : Fragment :=
  if node.isStatement then code else code ++ [.plain .pop node.line]

/-- The code of a conditional: the jump over the first arm also skips the jump at its end. -/
def branch (condition thenCode elseCode : Fragment) (line : UInt32) : Fragment :=
  condition ++ [.skipIfFalse (thenCode.size + 2) line] ++ thenCode ++ [.skip elseCode.size line] ++
    elseCode

/-- The first name of a list that occurs before in the list. -/
def firstRepeated? (seen : List String) : List String → Option String
  | [] => none
  | name :: rest => if name ∈ seen then some name else firstRepeated? (name :: seen) rest

/-- The line of the return at the end of a body: that of its last node, or of the function where the
body is empty. -/
def endLine (body : Block Node) (line : UInt32) : UInt32 :=
  match body.nodes.getLast? with
  | some node => node.line
  | none => line

/-- The routine of a function, given how its body is lowered once its slots are known. A body that comes
to its end returns undefined. -/
def routineOf (strict : Bool) (name : String) (parameters : List String) (body : Block Node)
    (line : UInt32) (lowerBody : SlotTable → Lowering Fragment) : Lowering Routine := do
  match SlotTable.allocate parameters body strict line with
  | .error fault => throw fault
  | .ok slots =>
    let code ← lowerBody slots
    let last := endLine body line
    let complete := code ++ undefinedAt last ++ [.plain .ret last]
    let identity ← freshIdentity
    return ⟨identity, name, complete.assemble (parameters.length + 1) slots.size⟩

/-- The name of a function without a name. -/
def anonymous : String :=
  "lambda"

/-! ### Nodes -/

mutual

/-- The code of a node. -/
def lowerNode (strict : Bool) (slots : SlotTable) : Node → Lowering Fragment
  | .block body => lowerStatements strict slots body.nodes
  | .literal value line => do
    return [.plain (.constant (← literalWord value)) line]
  | .access name line => do
    match slots.slotOf? name with
    | some slot => return [.plain (.load (UInt32.ofNat slot)) line]
    | none => return [.plain (.lookup (← constant (.text name))) line]
  | .assignment name value _ line => do
    let code ← lowerNode strict slots value
    match slots.slotOf? name with
    | some slot => return valueOf value code ++ [.plain (.store (UInt32.ofNat slot)) line]
    | none => throw (.unresolvedLocal name line)
  | .function name parameters body line => do
    let routine ← routineOf strict (name.getD anonymous) parameters body line
      fun inner ↦ lowerStatements strict inner body.nodes
    let word ← constant (.function (.compiled routine))
    match name with
    | none => return [.plain (.constant word) line]
    | some bound =>
      let nameWord ← constant (.text bound)
      return [.plain (.constant word) line, .plain .duplicate line, .plain (.register nameWord) line]
  | .call callee arguments line => do
    let calleeCode ← lowerNode strict slots callee
    let argumentCode ← lowerValues strict slots arguments
    return valueOf callee calleeCode ++ undefinedAt line ++ argumentCode ++
      [.plain (.call (UInt32.ofNat arguments.length)) line]
  | .methodCall receiver name arguments line => do
    let receiverCode ← lowerNode strict slots receiver
    let nameWord ← constant (.text name)
    let argumentCode ← lowerValues strict slots arguments
    return valueOf receiver receiverCode ++
      [.plain .duplicate line, .plain (.get nameWord) line, .plain .swap line] ++ argumentCode ++
      [.plain (.call (UInt32.ofNat arguments.length)) line]
  | .ret value line => do
    let code ← lowerNode strict slots value
    return valueOf value code ++ [.plain .ret line]
  | .conditional condition thenBlock elseBlock line => do
    let conditionCode ← lowerNode strict slots condition
    let thenCode ← lowerStatements strict slots thenBlock.nodes
    let elseCode ← lowerStatements strict slots elseBlock.nodes
    return branch (valueOf condition conditionCode) thenCode elseCode line
  | .object fields line => do
    let names := fields.map Field.name
    match firstRepeated? [] names with
    | some name => throw (.duplicateField name line)
    | none =>
      let code ← lowerFields strict slots fields
      let identity ← freshIdentity
      let word ← constant (.layout ⟨identity, names⟩)
      return code ++ [.plain (.new word) line]
  | .fieldAccess receiver name line => do
    let code ← lowerNode strict slots receiver
    let nameWord ← constant (.text name)
    return valueOf receiver code ++ [.plain (.get nameWord) line]
  | .fieldAssignment receiver name value line => do
    let receiverCode ← lowerNode strict slots receiver
    let valueCode ← lowerNode strict slots value
    let nameWord ← constant (.text name)
    return valueOf receiver receiverCode ++ valueOf value valueCode ++ [.plain (.put nameWord) line]

/-- The code of nodes whose values are left on the stack in order. -/
def lowerValues (strict : Bool) (slots : SlotTable) : List Node → Lowering Fragment
  | [] => return []
  | node :: rest => do
    let code ← lowerNode strict slots node
    let restCode ← lowerValues strict slots rest
    return valueOf node code ++ restCode

/-- The code of nodes whose values are dropped. -/
def lowerStatements (strict : Bool) (slots : SlotTable) : List Node → Lowering Fragment
  | [] => return []
  | node :: rest => do
    let code ← lowerNode strict slots node
    let restCode ← lowerStatements strict slots rest
    return statementOf node code ++ restCode

/-- The code of the initial values of fields, which are left on the stack in order. -/
def lowerFields (strict : Bool) (slots : SlotTable) : List (Field Node) → Lowering Fragment
  | [] => return []
  | field :: rest => do
    let code ← lowerNode strict slots field.value
    let restCode ← lowerFields strict slots rest
    return valueOf field.value code ++ restCode

end

end Lowering

/-! ### Functions and scripts -/

/-- Compiles a function. -/
def compileFunction (strict : Bool) (name : Option String) (parameters : List String)
    (body : Block Node) (line : UInt32) : Lowering Routine :=
  Lowering.routineOf strict (name.getD Lowering.anonymous) parameters body line
    fun slots ↦ Lowering.lowerStatements strict slots body.nodes

/-- Compiles a script to a function without parameters. -/
def compileScript (strict : Bool) (script : Script) : Lowering Routine :=
  compileFunction strict (some "main") [] script.body script.body.line

end ScriptMachine
