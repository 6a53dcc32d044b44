import ScriptMachine.Code.Opcode
import ScriptMachine.Word

/-!
# Instructions

An `Instruction` is an opcode together with what its operand means: a word to push, a word that names
a global or a field, the slot of a local variable, a number of arguments, the offset of a jump target,
or the word of a class. `Instruction.words` spells an instruction as it stands in a code unit, and
`Instruction.ofParts` reads it from an opcode and an operand; `Instruction.ofParts_parts` says that
the two agree.
-/

set_option autoImplicit false
set_option relaxedAutoImplicit false

namespace ScriptMachine

/-- One instruction of the stack machine. -/
inductive Instruction where
  | constant (word : Word)
  | lookup (name : Word)
  | register (name : Word)
  | load (slot : UInt32)
  | store (slot : UInt32)
  | duplicate
  | pop
  | swap
  | call (argumentCount : UInt32)
  | ret
  | goto (target : UInt32)
  | jumpIfFalse (target : UInt32)
  | new (layout : Word)
  | get (name : Word)
  | put (name : Word)
  deriving DecidableEq, Repr

namespace Instruction

/-- The opcode of an instruction. -/
def opcode : Instruction → Opcode
  | .constant _ => .constant
  | .lookup _ => .lookup
  | .register _ => .register
  | .load _ => .load
  | .store _ => .store
  | .duplicate => .duplicate
  | .pop => .pop
  | .swap => .swap
  | .call _ => .call
  | .ret => .ret
  | .goto _ => .goto
  | .jumpIfFalse _ => .jumpIfFalse
  | .new _ => .new
  | .get _ => .get
  | .put _ => .put

/-- The operand word of an instruction, if it has one. -/
def operand? : Instruction → Option UInt32
  | .constant word | .lookup word | .register word | .new word | .get word | .put word =>
    some word.bits
  | .load number | .store number | .call number | .goto number | .jumpIfFalse number => some number
  | .duplicate | .pop | .swap | .ret => none

/-- The instruction with an opcode and an operand; the operand of an opcode that stands alone does
not count. -/
def ofParts (opcode : Opcode) (operand : UInt32) : Instruction :=
  match opcode with
  | .constant => .constant ⟨operand⟩
  | .lookup => .lookup ⟨operand⟩
  | .register => .register ⟨operand⟩
  | .load => .load operand
  | .store => .store operand
  | .duplicate => .duplicate
  | .pop => .pop
  | .swap => .swap
  | .call => .call operand
  | .ret => .ret
  | .goto => .goto operand
  | .jumpIfFalse => .jumpIfFalse operand
  | .new => .new ⟨operand⟩
  | .get => .get ⟨operand⟩
  | .put => .put ⟨operand⟩

/-- The words of an instruction in a code unit. -/
def words (instruction : Instruction) : List UInt32 :=
  instruction.opcode.number :: instruction.operand?.toList

/-- The number of words of an instruction. -/
def size (instruction : Instruction) : Nat :=
  instruction.opcode.size

/-- An instruction is rebuilt from its opcode and its operand. -/
theorem ofParts_parts (instruction : Instruction) :
    ofParts instruction.opcode (instruction.operand?.getD 0) = instruction := by
  cases instruction <;> rfl

/-- The size of an instruction counts its words. -/
theorem length_words (instruction : Instruction) : instruction.words.length = instruction.size := by
  cases instruction <;> rfl

end Instruction

end ScriptMachine
