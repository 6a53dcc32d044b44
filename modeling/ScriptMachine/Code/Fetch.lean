import ScriptMachine.Code.Instruction
import ScriptMachine.Code.Unit
import ScriptMachine.Fault

/-!
# Reading instructions

`CodeUnit.instructionAt` reads the instruction that starts at an offset of a code unit. It fails past
the end of the code, at a number that is no opcode, and where the operand is missing, in this order.
`CodeUnit.mnemonicAt` names the instruction at an offset for an error message.
-/

set_option autoImplicit false
set_option relaxedAutoImplicit false

namespace ScriptMachine

namespace CodeUnit

/-- The instruction that starts at an offset. -/
def instructionAt (unit : CodeUnit) (offset : Nat) : Except Fault Instruction :=
  match unit.code[offset]? with
  | none => .error (.codeOverrun offset)
  | some number =>
    match Opcode.ofNumber? number with
    | none => .error (.unknownOpcode number)
    | some opcode =>
      if opcode.takesOperand then
        match unit.code[offset + 1]? with
        | none => .error (.codeOverrun (offset + 1))
        | some operand => .ok (.ofParts opcode operand)
      else .ok (.ofParts opcode 0)

/-- The mnemonic at an offset, and a question mark where there is none. -/
def mnemonicAt (unit : CodeUnit) (offset : Nat) : String :=
  match unit.code[offset]?.bind Opcode.ofNumber? with
  | some opcode => opcode.mnemonic
  | none => "?"

end CodeUnit

end ScriptMachine
