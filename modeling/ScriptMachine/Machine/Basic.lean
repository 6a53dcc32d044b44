import ScriptMachine.Builtin
import ScriptMachine.Encoding
import ScriptMachine.Globals
import ScriptMachine.Machine.Stack

/-!
# The machine between calls

A `Machine` holds what outlives a call: the operand stack, the heap, the constant table, the globals, the
text printed so far, the native functions that the host has installed, and the supply of identities for
new functions and classes. `Machine.applyNative` carries a native function out. It can print, but it
reaches neither the heap nor the globals.
-/

set_option autoImplicit false
set_option relaxedAutoImplicit false

namespace ScriptMachine

/-- The sizes of a machine. The stack starts with `initialStackWords` and grows to `maxStackWords`. -/
structure Limits where
  heapWords : Nat
  initialStackWords : Nat
  maxStackWords : Nat
  deriving DecidableEq, Repr

/-- The sizes of a machine for which nothing else is asked. -/
def Limits.standard : Limits :=
  ⟨4096, 96, 1048576⟩

/-- A native function of the host, applied to a receiver and arguments. -/
abbrev HostFunction :=
  Value → List Value → Except Fault Value

/-- What outlives a call. -/
structure Machine where
  stack : Stack
  heap : Heap
  constants : ConstantTable
  globals : Globals
  sink : Sink
  hosts : Array HostFunction
  nextIdentity : Nat

namespace Machine

/-- A machine that has run nothing. -/
def ofLimits (limits : Limits) (globals : Globals) (sink : Sink) (nextIdentity : Nat) : Machine where
  stack := Stack.ofSizes limits.initialStackWords limits.maxStackWords
  heap := Heap.ofCapacity limits.heapWords
  constants := ConstantTable.empty
  globals := globals
  sink := sink
  hosts := #[]
  nextIdentity := nextIdentity

/-! ### Globals of a fresh machine -/

/-- The builtin operations as functions, with identities that count up from the given one. -/
def builtinFunctions (identity : Nat) : List Builtin → List Function
  | [] => []
  | operation :: rest =>
    .native identity operation.symbol (.builtin operation) :: builtinFunctions (identity + 1) rest

/-- The globals that bind the global scope and every builtin operation. -/
def standardGlobals : Globals :=
  (builtinFunctions 0 Builtin.all).foldl
    (fun globals function ↦ globals.register function.name (.function function))
    (Globals.empty.register "global" .globalScope)

/-- A machine with the standard globals. -/
def standard (limits : Limits) (sink : Sink) : Machine :=
  ofLimits limits standardGlobals sink Builtin.all.length

/-- A machine with no globals at all. -/
def bare (limits : Limits) (sink : Sink) : Machine :=
  ofLimits limits Globals.empty sink 0

/-! ### Additions by the host -/

/-- A new class with some fields. -/
def newClass (machine : Machine) (fields : List String) : Class × Machine :=
  (⟨machine.nextIdentity, fields⟩, { machine with nextIdentity := machine.nextIdentity + 1 })

/-- A new function for a code unit. -/
def newRoutine (machine : Machine) (name : String) (unit : CodeUnit) : Routine × Machine :=
  (⟨machine.nextIdentity, name, unit⟩, { machine with nextIdentity := machine.nextIdentity + 1 })

/-- A new function that the host carries out. -/
def newHostFunction (machine : Machine) (name : String) (behaviour : HostFunction) :
    Function × Machine :=
  (.native machine.nextIdentity name (.host machine.hosts.size),
    { machine with
      hosts := machine.hosts.push behaviour
      nextIdentity := machine.nextIdentity + 1 })

/-- Binds a global name. -/
def register (machine : Machine) (name : String) (value : Value) : Machine :=
  { machine with globals := machine.globals.register name value }

/-- The text printed since it was last taken, and the machine without it. -/
def takePrinted (machine : Machine) : String × Machine :=
  (machine.sink.written, { machine with sink := { machine.sink with written := "" } })

/-! ### Parts of a machine -/

/-- Carries something out on the heap of a machine. -/
def onHeap {α : Type} (action : EStateM Fault Heap α) : EStateM Fault Machine α
  | ⟨stack, heap, constants, globals, sink, hosts, nextIdentity⟩ =>
    match action heap with
    | .ok value heap => .ok value ⟨stack, heap, constants, globals, sink, hosts, nextIdentity⟩
    | .error fault heap => .error fault ⟨stack, heap, constants, globals, sink, hosts, nextIdentity⟩

/-- Carries something out on the sink of a machine. -/
def onSink {α : Type} (action : EStateM Fault Sink α) : EStateM Fault Machine α
  | ⟨stack, heap, constants, globals, sink, hosts, nextIdentity⟩ =>
    match action sink with
    | .ok value sink => .ok value ⟨stack, heap, constants, globals, sink, hosts, nextIdentity⟩
    | .error fault sink => .error fault ⟨stack, heap, constants, globals, sink, hosts, nextIdentity⟩

/-! ### Words and values -/

/-- The value of a word. -/
def decode (machine : Machine) (word : Word) : Except Fault Value :=
  ScriptMachine.decode machine.constants machine.heap word

/-- The word of a value, which may add a constant. -/
def encode (machine : Machine) (value : Value) : Word × Machine :=
  match value.inlineWord? with
  | some word => (word, machine)
  | none =>
    let (word, constants) := machine.constants.box value
    (word, { machine with constants := constants })

/-- The word of a value in the constant table. -/
def box (machine : Machine) (value : Value) : Word × Machine :=
  let (word, constants) := machine.constants.box value
  (word, { machine with constants := constants })

/-- The value of a field of an object, and undefined where its class has no such field. -/
def getField (machine : Machine) (object : ObjectRef) (name : String) : Except Fault Value :=
  match object.layout.slotOf? name with
  | some slot => machine.decode (machine.heap.field object.index slot)
  | none => .ok .undefined

/-! ### Native functions -/

/-- Carries a native function out. -/
def applyNative (operation : Native) (receiver : Value) (arguments : List Value) :
    EStateM Fault Machine Value :=
  match operation with
  | .builtin builtin => onSink (builtin.apply arguments)
  | .host position => fun machine ↦
    match machine.hosts[position]? with
    | none => .ok .undefined machine
    | some behaviour =>
      match behaviour receiver arguments with
      | .ok value => .ok value machine
      | .error fault => .error fault machine

end Machine

end ScriptMachine
