import ScriptMachine.Code.Fetch
import ScriptMachine.Machine.Basic

/-!
# One instruction

An `Activity` is a machine in the middle of a call: the machine, the `Frame` of the function that is
running, and the offset of its next instruction. On the stack a frame lies above the word of its
function: the receiver, the arguments and the remaining variables in `slotCount` cells from the base on,
then an activation record of the three words that the caller needs again (its base, the offset at which
it goes on, and the word of its function), then the operands.

`step` carries one instruction out. It answers with a value when the frame that the host entered
returns, and with nothing when the call goes on. A failing instruction leaves the activity as it was at
the moment of the failure, because part of it may have been carried out already.
-/

set_option autoImplicit false
set_option relaxedAutoImplicit false

namespace ScriptMachine

/-! ### Activities -/

/-- The function that is running, and its word. -/
structure Frame where
  routine : Routine
  word : Word

/-- A machine in the middle of a call. -/
structure Activity where
  machine : Machine
  frame : Frame
  offset : Nat

/-- Something that happens in the middle of a call and can fail. -/
abbrev Execution :=
  EStateM Fault Activity

/-- The words of an activation record. -/
def recordSize : Nat :=
  3

/-- The saved offset of a frame that the host entered. -/
def hostReturn : Word :=
  ⟨4294967295⟩

/-- A frame over the arguments on top of a stack. The cells of the variables that are not parameters
hold undefined, and the record above them holds the base of the caller, the offset at which the caller
goes on, and the word of the caller. -/
def Stack.enterFrame (stack : Stack) (base : Nat) (unit : CodeUnit) (returnOffset caller : Word) :
    Stack :=
  let record := base + unit.slotCount
  match stack.reserve (record + recordSize) with
  | ⟨cells, _, callerBase, limit⟩ =>
    let cells := cells.setIfInBounds record ⟨UInt32.ofNat callerBase⟩
    let cells := cells.setIfInBounds (record + 1) returnOffset
    let cells := cells.setIfInBounds (record + 2) caller
    let cells := Stack.fillCells cells (base + unit.parameterCount) Word.undefined
      (unit.slotCount - unit.parameterCount)
    ⟨cells, record + recordSize, base, limit⟩

namespace Activity

/-- The activity with its stack changed. -/
@[inline] def mapStack (activity : Activity) (change : Stack → Stack) : Activity :=
  { activity with machine := { activity.machine with stack := change activity.machine.stack } }

/-- The activity with its heap changed. -/
@[inline] def mapHeap (activity : Activity) (change : Heap → Heap) : Activity :=
  { activity with machine := { activity.machine with heap := change activity.machine.heap } }

end Activity

namespace Execution

/-! ### The operand stack -/

/-- Puts a word on top of the stack. -/
def push (word : Word) : Execution Unit := fun activity ↦
  if activity.machine.stack.hasRoom (activity.machine.stack.top + 1) then
    .ok () (activity.mapStack fun stack ↦ stack.push word)
  else .error (.stackOverflow activity.machine.stack.limit) activity

/-- Takes the word on top of the stack away. -/
def pop : Execution Word := fun activity ↦
  if activity.machine.stack.top = 0 then .error .stackUnderflow activity
  else
    .ok (activity.machine.stack.cell (activity.machine.stack.top - 1))
      (activity.mapStack fun stack ↦ { stack with top := stack.top - 1 })

/-- The word on top of the stack. -/
def peek : Execution Word := fun activity ↦
  if activity.machine.stack.top = 0 then .error .stackUnderflow activity
  else .ok (activity.machine.stack.cell (activity.machine.stack.top - 1)) activity

/-! ### Machines, words and values -/

/-- Answers with the outcome of something that changes nothing. -/
@[inline] def ofExcept {α : Type} (outcome : Except Fault α) : Execution α := fun activity ↦
  match outcome with
  | .ok value => .ok value activity
  | .error fault => .error fault activity

/-- Carries something out on the machine. -/
def onMachine {α : Type} (action : EStateM Fault Machine α) : Execution α
  | ⟨machine, frame, offset⟩ =>
    match action machine with
    | .ok value machine => .ok value ⟨machine, frame, offset⟩
    | .error fault machine => .error fault ⟨machine, frame, offset⟩

/-- The value of a word. -/
def decode (word : Word) : Execution Value := fun activity ↦
  ofExcept (activity.machine.decode word) activity

/-- The values of several words, in order. -/
def decodeAll : List Word → Execution (List Value)
  | [] => pure []
  | word :: rest => do
    let value ← decode word
    let values ← decodeAll rest
    return value :: values

/-- The word of a value. -/
def encode (value : Value) : Execution Word := fun activity ↦
  let (word, machine) := activity.machine.encode value
  .ok word { activity with machine := machine }

/-- The text of a word that names a global or a field. -/
def nameOf (word : Word) : Execution String := do
  match ← decode word with
  | .text name => return name
  | other => throw (.typeMismatch "name" other.typeName)

/-- The function of a word. -/
def functionOf (word : Word) : Execution Function := do
  match ← decode word with
  | .function callee => return callee
  | other => throw (.typeMismatch "function" other.typeName)

/-- The class of a word. -/
def classOf (word : Word) : Execution Class := do
  match ← decode word with
  | .layout shape => return shape
  | other => throw (.typeMismatch "class" other.typeName)

/-- The name of the type of a word, also of one that has no value. -/
def typeNameOf (word : Word) : Execution String := fun activity ↦
  match activity.machine.decode word with
  | .ok value => .ok value.typeName activity
  | .error _ => .ok "invalid value" activity

/-- The object of a word that is a reference. -/
def objectOf (word : Word) : Execution ObjectRef := do
  match word.reference? with
  | some _ =>
    match ← decode word with
    | .object reference => return reference
    | other => throw (.typeMismatch "object" other.typeName)
  | none => throw (.typeMismatch "object" (← typeNameOf word))

/-- Whether a word takes a conditional jump: the integer zero and the constant false do. -/
def isFalse (word : Word) : Execution Bool := fun activity ↦
  let holds :=
    word = Word.zero ||
      match word.kind with
      | .constant index => activity.machine.constants.get? index = some (.boolean false)
      | _ => false
  .ok holds activity

/-! ### The running frame -/

/-- The slot of an operand, which has to lie in the running frame. -/
def slotOf (operand : UInt32) : Execution Nat := fun activity ↦
  let slotCount := activity.frame.routine.unit.slotCount
  if operand.toNat < slotCount then .ok operand.toNat activity
  else .error (.invalidSlot operand.toNat slotCount) activity

/-- The word in a slot of the running frame. -/
def readSlot (slot : Nat) : Execution Word := fun activity ↦
  .ok (activity.machine.stack.cell (activity.machine.stack.base + slot)) activity

/-- Replaces the word in a slot of the running frame. -/
def writeSlot (slot : Nat) (word : Word) : Execution Unit := fun activity ↦
  .ok () (activity.mapStack fun stack ↦ stack.setCell (stack.base + slot) word)

/-- Goes on at an offset of the running code. -/
def jump (target : Nat) : Execution Unit := fun activity ↦
  .ok () { activity with offset := target }

/-- Cuts the stack down to a number of cells. -/
def cutStack (top : Nat) : Execution Unit := fun activity ↦
  .ok () (activity.mapStack fun stack ↦ { stack with top := top })

/-- Reads the next instruction and moves past it. -/
def fetch : Execution Instruction := fun activity ↦
  match activity.frame.routine.unit.instructionAt activity.offset with
  | .error fault => .error fault activity
  | .ok instruction => .ok instruction { activity with offset := activity.offset + instruction.size }

/-! ### Calls and returns -/

/-- Builds the frame of a routine over the arguments on top of the stack, below which lie the receiver
and the word of the routine. -/
def enter (routine : Routine) (argumentCount : Nat) (returnOffset caller : Word) : Execution Unit :=
  fun activity ↦
    let unit := routine.unit
    if argumentCount + 1 ≠ unit.parameterCount then
      .error (.arityMismatch routine.name (unit.parameterCount - 1) argumentCount) activity
    else if unit.slotCount < unit.parameterCount then
      .error (.invalidSlot (unit.parameterCount - 1) unit.slotCount) activity
    else
      let base := activity.machine.stack.top - argumentCount - 1
      if activity.machine.stack.hasRoom (base + unit.slotCount + recordSize) then
        .ok () (activity.mapStack fun stack ↦ stack.enterFrame base unit returnOffset caller)
      else .error (.stackOverflow activity.machine.stack.limit) activity

/-- Carries a native function out in the middle of a call. -/
def applyNative (operation : Native) (receiver : Value) (arguments : List Value) : Execution Value :=
  onMachine (Machine.applyNative operation receiver arguments)

/-- Calls the function below the receiver and the arguments on top of the stack. A native function
answers at once, and its result takes the place of function, receiver and arguments; for a compiled one
the running frame changes. -/
def call (argumentCount : Nat) : Execution Unit := fun activity ↦
  let top := activity.machine.stack.top
  if top < argumentCount + 2 then .error .stackUnderflow activity
  else
    let first := top - argumentCount
    let calleeWord := activity.machine.stack.cell (first - 2)
    let run : Execution Unit := do
      match ← functionOf calleeWord with
      | .native _ _ operation =>
        let receiver ← decode (activity.machine.stack.cell (first - 1))
        let arguments ← decodeAll (activity.machine.stack.slice first argumentCount)
        let result ← applyNative operation receiver arguments
        let word ← encode result
        cutStack (first - 2)
        push word
      | .compiled routine =>
        enter routine argumentCount ⟨UInt32.ofNat activity.offset⟩ activity.frame.word
        modify fun entered ↦ { entered with frame := ⟨routine, calleeWord⟩, offset := 0 }
    run activity

/-- Returns from the running frame with the word on top of the stack. The frame that the host entered
ends the call with the value of that word; every other one goes back to its caller. -/
def leave : Execution (Option Value) := do
  let result ← pop
  let activity ← get
  let stack := activity.machine.stack
  let record := stack.base + activity.frame.routine.unit.slotCount
  let savedBase := stack.cell record
  let savedOffset := stack.cell (record + 1)
  let callerWord := stack.cell (record + 2)
  set (activity.mapStack fun stack ↦
    { stack with top := stack.base - 1, base := savedBase.bits.toNat })
  if savedOffset = hostReturn then
    return some (← decode result)
  else
    match ← functionOf callerWord with
    | .native _ _ _ => throw (.typeMismatch "compiled function" "native function")
    | .compiled routine =>
      modify fun left ↦ { left with frame := ⟨routine, callerWord⟩, offset := savedOffset.bits.toNat }
      push result
      return none

/-! ### Objects -/

/-- Puts a new object on the heap. -/
def allocate (classWord : Word) (fields : List Word) : Execution Word :=
  onMachine (Machine.onHeap (Heap.allocate classWord fields))

/-- Builds an object of a class from the words on top of the stack. -/
def construct (classWord : Word) : Execution Unit := do
  let shape ← classOf classWord
  let activity ← get
  let top := activity.machine.stack.top
  if top < shape.fieldCount then throw .stackUnderflow
  else
    let first := top - shape.fieldCount
    let reference ← allocate classWord (activity.machine.stack.slice first shape.fieldCount)
    cutStack first
    push reference

/-- The word in a field of an object, and undefined where its class has no such field. -/
def readField (object : ObjectRef) (name : String) : Execution Word := fun activity ↦
  match object.layout.slotOf? name with
  | some slot => .ok (activity.machine.heap.field object.index slot) activity
  | none => .ok Word.undefined activity

/-- Replaces the word in a field of an object, which its class has to have. -/
def writeField (object : ObjectRef) (name : String) (word : Word) : Execution Unit := fun activity ↦
  match object.layout.slotOf? name with
  | some slot => .ok () (activity.mapHeap fun heap ↦ heap.setField object.index slot word)
  | none => .error (.unknownField name) activity

/-! ### Globals -/

/-- The value of a global. -/
def lookup (name : String) : Execution Value := fun activity ↦
  .ok (activity.machine.globals.lookup name) activity

/-- Binds a global. -/
def register (name : String) (value : Value) : Execution Unit := fun activity ↦
  .ok () { activity with machine := activity.machine.register name value }

/-! ### Instructions -/

/-- Carries an instruction out after it was fetched. -/
def execute : Instruction → Execution (Option Value)
  | .constant word => do
    push word
    return none
  | .lookup name => do
    let name ← nameOf name
    let value ← lookup name
    push (← encode value)
    return none
  | .register name => do
    let name ← nameOf name
    let word ← pop
    register name (← decode word)
    return none
  | .load slot => do
    let slot ← slotOf slot
    push (← readSlot slot)
    return none
  | .store slot => do
    let slot ← slotOf slot
    writeSlot slot (← pop)
    return none
  | .duplicate => do
    push (← peek)
    return none
  | .pop => do
    let _ ← pop
    return none
  | .swap => do
    let upper ← pop
    let lower ← pop
    push upper
    push lower
    return none
  | .call argumentCount => do
    call argumentCount.toNat
    return none
  | .ret => leave
  | .goto target => do
    jump target.toNat
    return none
  | .jumpIfFalse target => do
    let condition ← pop
    if ← isFalse condition then
      jump target.toNat
    return none
  | .new classWord => do
    construct classWord
    return none
  | .get name => do
    let name ← nameOf name
    let object ← objectOf (← pop)
    push (← readField object name)
    return none
  | .put name => do
    let name ← nameOf name
    let word ← pop
    let object ← objectOf (← pop)
    writeField object name word
    return none

/-- Carries the next instruction out. -/
def step : Execution (Option Value) := do
  execute (← fetch)

end Execution

end ScriptMachine
