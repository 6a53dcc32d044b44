import ScriptMachine.Proofs.Operation

/-!
# Calls in progress

A `CallStack` is a machine in the middle of a call with its stack taken apart: each call in progress is a
`Level` with variables and operands of its own, and both hold values instead of words. `CallStack.step`
carries one operation out and answers with a `Progress`: the calls after it, the value of the outermost
call, or a fault. It answers with nothing where a machine of words could do anything at all, for instance
with too few operands.

A value that does not fit into a word is kept in the constant table, and what comes back is the entry
that its word refers to (`ConstantTable.carry`). That is the value itself as long as the table is no larger
than the words can number.
-/

set_option autoImplicit false
set_option relaxedAutoImplicit false

namespace ScriptMachine

/-! ### Calls -/

/-- A call in progress: its routine, the offset at which it goes on, its variables in slot order, and its
operands, top first. -/
structure Level where
  routine : Routine
  offset : Nat
  locals : List Value
  operands : List Value

/-- The calls in progress, with the innermost one apart from its callers, who are listed innermost
first. -/
structure CallStack where
  world : World
  constants : ConstantTable
  current : Level
  callers : List Level

/-- What comes of one operation. -/
inductive Progress where
  | next (calls : CallStack)
  | finished (value : Value) (world : World) (constants : ConstantTable)
  | failed (fault : Fault) (world : World) (constants : ConstantTable)

/-- The value that comes back when a value is put into a word and read from there, and the table after
that. -/
def ConstantTable.carry (table : ConstantTable) (value : Value) : Value × ConstantTable :=
  match value.inlineWord? with
  | some _ => (value, table)
  | none =>
    let boxed := table.box value
    ((boxed.2.constant? boxed.1).getD value, boxed.2)

namespace CallStack

/-! ### Single operations -/

/-- The calls with other operands of the innermost one. -/
def withOperands (calls : CallStack) (operands : List Value) : CallStack :=
  { calls with current := { calls.current with operands := operands } }

/-- The calls with the innermost one at another offset. -/
def withOffset (calls : CallStack) (offset : Nat) : CallStack :=
  { calls with current := { calls.current with offset := offset } }

/-- The calls with another world. -/
def withWorld (calls : CallStack) (world : World) : CallStack :=
  { calls with world := world }

/-- The calls after a value has come back through a word on top of some operands. -/
def pushCarried (calls : CallStack) (value : Value) (operands : List Value) : CallStack :=
  let carried := calls.constants.carry value
  { calls with
    constants := carried.2
    current := { calls.current with operands := carried.1 :: operands } }

/-- The variables of a call at its beginning. -/
def initialLocals (unit : CodeUnit) (receiver : Value) (arguments : List Value) : List Value :=
  receiver :: arguments ++ List.replicate (unit.slotCount - unit.parameterCount) .undefined

/-- Begins the call of a routine, with the caller left at some operands. -/
def enter (calls : CallStack) (routine : Routine) (receiver : Value) (arguments rest : List Value) :
    CallStack :=
  { calls with
    current := ⟨routine, 0, initialLocals routine.unit receiver arguments, []⟩
    callers := { calls.current with operands := rest } :: calls.callers }

/-- Calls a value with a receiver and arguments that lay on top of some operands. -/
def call (calls : CallStack) (callee receiver : Value) (arguments rest : List Value) :
    Option Progress :=
  match callee with
  | .function (.native _ _ operation) =>
    match World.applyNative operation receiver arguments calls.world with
    | .ok value world => some (.next ((calls.withWorld world).pushCarried value rest))
    | .error fault world => some (.failed fault world calls.constants)
  | .function (.compiled routine) =>
    if arguments.length + 1 ≠ routine.unit.parameterCount then
      some (.failed (.arityMismatch routine.name (routine.unit.parameterCount - 1) arguments.length)
        calls.world calls.constants)
    else if routine.unit.slotCount < routine.unit.parameterCount then none
    else some (.next (calls.enter routine receiver arguments rest))
  | other => some (.failed (.typeMismatch "function" other.typeName) calls.world calls.constants)

/-- Returns from the innermost call with a value. -/
def leave (calls : CallStack) (value : Value) : Progress :=
  match calls.callers with
  | [] => .finished value calls.world calls.constants
  | caller :: callers =>
    .next { calls with
      current := { caller with operands := value :: caller.operands }
      callers := callers }

/-- Goes on with the outcome of something that reads or changes the world and yields a value on top of
some operands. -/
def proceed (calls : CallStack) (rest : List Value) : Except Fault (Value × World) → Progress
  | .ok (value, world) => .next ((calls.withWorld world).withOperands (value :: rest))
  | .error fault => .failed fault calls.world calls.constants

/-- Carries an operation out, with the innermost call already at the offset behind it. -/
def perform (calls : CallStack) (operation : Operation) : Option Progress :=
  match operation, calls.current.operands with
  | .push value, operands => some (.next (calls.withOperands (value :: operands)))
  | .lookup name, operands =>
    some (.next (calls.pushCarried (calls.world.globals.lookup name) operands))
  | .register name, value :: rest =>
    some (.next ((calls.withWorld (calls.world.register name value)).withOperands rest))
  | .load slot, operands =>
    calls.current.locals[slot]?.map fun value ↦ .next (calls.withOperands (value :: operands))
  | .store slot, value :: rest =>
    if slot < calls.current.locals.length then
      some (.next { calls with
        current :=
          { calls.current with
            locals := calls.current.locals.set slot value
            operands := rest } })
    else none
  | .duplicate, value :: rest => some (.next (calls.withOperands (value :: value :: rest)))
  | .pop, _ :: rest => some (.next (calls.withOperands rest))
  | .swap, upper :: lower :: rest => some (.next (calls.withOperands (lower :: upper :: rest)))
  | .call argumentCount, operands =>
    match operands.drop argumentCount with
    | receiver :: callee :: rest =>
      calls.call callee receiver (operands.take argumentCount).reverse rest
    | _ => none
  | .ret, value :: _ => some (calls.leave value)
  | .goto target, _ => some (.next (calls.withOffset target))
  | .jumpIfFalse target, value :: rest =>
    let popped := calls.withOperands rest
    some (.next (if value.isFalse then popped.withOffset target else popped))
  | .new layout, operands =>
    if operands.length < layout.fieldCount then none
    else
      some (calls.proceed (operands.drop layout.fieldCount)
        (calls.world.allocate layout (operands.take layout.fieldCount).reverse))
  | .get name, receiver :: rest =>
    some (calls.proceed rest
      ((calls.world.readField receiver name).map fun value ↦ (value, calls.world)))
  | .put name, value :: receiver :: rest =>
    match calls.world.writeField receiver name value with
    | .ok world => some (.next ((calls.withWorld world).withOperands rest))
    | .error fault => some (.failed fault calls.world calls.constants)
  | _, _ => none

/-- Carries the next operation out. -/
def step (calls : CallStack) : Option Progress :=
  match calls.current.routine.unit.operationAt calls.constants calls.current.offset with
  | none => none
  | some (operation, next) => (calls.withOffset next).perform operation

end CallStack

end ScriptMachine
