/-!
# Faults

A `Fault` is the reason why an instruction, a native function or an access to the heap did not
succeed. `Fault.message` is its text and `Fault.code` the code that identifies its kind in
diagnostics. A `LocatedFault` adds the place: the function whose body was running, the source line,
and the mnemonic of the instruction.
-/

set_option autoImplicit false
set_option relaxedAutoImplicit false

namespace ScriptMachine

/-- The reason why running code failed. -/
inductive Fault where
  | arityMismatch (function : String) (expected found : Nat)
  | unknownField (name : String)
  | typeMismatch (expected found : String)
  | heapExhausted (requested available : Nat)
  | unknownOpcode (number : UInt32)
  | stackOverflow (limit : Nat)
  | stackUnderflow
  | divisionByZero
  | codeOverrun (offset : Nat)
  | invalidConstant (index : UInt32)
  | invalidReference (index : UInt32)
  | outputFailed (reason : String)
  | invalidSlot (slot slotCount : Nat)
  deriving DecidableEq, Repr

namespace Fault

/-- The text of a fault. -/
def message : Fault → String
  | .arityMismatch function expected found =>
    "wrong number of arguments for " ++ function ++ ": expected " ++ toString expected ++ " but got " ++
      toString found
  | .unknownField name => "no field '" ++ name ++ "' on object"
  | .typeMismatch expected found => "expected " ++ expected ++ ", found " ++ found
  | .heapExhausted requested available =>
    "heap exhausted: " ++ toString requested ++ " words requested, " ++ toString available ++ " available"
  | .unknownOpcode number => "unknown opcode: " ++ toString number.toNat
  | .stackOverflow limit => "stack overflow: limit of " ++ toString limit ++ " words reached"
  | .stackUnderflow => "operand stack underflow"
  | .divisionByZero => "division by zero"
  | .codeOverrun offset => "execution ran past the end of the code at offset " ++ toString offset
  | .invalidConstant index => "invalid constant index " ++ toString index.toNat
  | .invalidReference index => "invalid heap reference @" ++ toString index.toNat
  | .outputFailed reason => "output failed: " ++ reason
  | .invalidSlot slot slotCount =>
    "slot " ++ toString slot ++ " is outside a frame of " ++ toString slotCount ++ " slots"

/-- The code of a kind of fault. -/
def code : Fault → String
  | .arityMismatch _ _ _ => "SJ-R001"
  | .unknownField _ => "SJ-R002"
  | .typeMismatch _ _ => "SJ-R003"
  | .heapExhausted _ _ => "SJ-R004"
  | .unknownOpcode _ => "SJ-R005"
  | .stackOverflow _ => "SJ-R006"
  | .stackUnderflow => "SJ-R007"
  | .divisionByZero => "SJ-R008"
  | .codeOverrun _ => "SJ-R009"
  | .invalidConstant _ => "SJ-R010"
  | .invalidReference _ => "SJ-R011"
  | .outputFailed _ => "SJ-R012"
  | .invalidSlot _ _ => "SJ-R013"

end Fault

/-- A fault together with the place where it arose. -/
structure LocatedFault where
  fault : Fault
  function : String
  line : UInt32
  operation : String
  deriving DecidableEq, Repr

namespace LocatedFault

/-- The text of a located fault: that of the fault, then the place. -/
def message (located : LocatedFault) : String :=
  located.fault.message ++ " (in " ++ located.function ++ ", line " ++ toString located.line.toNat ++
    ", at " ++ located.operation ++ ")"

/-- A fault that arose before any instruction of a function called by the host: it has no line, and
counts as one of the call. -/
def atEntry (fault : Fault) (function : String) : LocatedFault :=
  ⟨fault, function, 0, "FUNCALL"⟩

end LocatedFault

end ScriptMachine
