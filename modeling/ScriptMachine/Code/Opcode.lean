/-!
# Opcodes

An instruction of the stack machine starts with the number of its `Opcode`. `Opcode.number` and
`Opcode.ofNumber?` translate between opcodes and numbers; the numbers run from one to fifteen without
a gap, and every other number is unknown (`Opcode.ofNumber?_eq_some_iff`). `Opcode.mnemonic` is the
name shown in listings and error messages, and `operandCount` the number of operand words that follow
a number, known or not.
-/

set_option autoImplicit false
set_option relaxedAutoImplicit false

namespace ScriptMachine

/-- The fifteen operations of the stack machine. -/
inductive Opcode where
  | constant
  | lookup
  | register
  | load
  | store
  | duplicate
  | pop
  | swap
  | call
  | ret
  | goto
  | jumpIfFalse
  | new
  | get
  | put
  deriving DecidableEq, Repr

namespace Opcode

/-- The word that stands for an opcode in a code unit. -/
def number : Opcode → UInt32
  | .constant => 1
  | .lookup => 2
  | .register => 3
  | .load => 4
  | .store => 5
  | .duplicate => 6
  | .pop => 7
  | .swap => 8
  | .call => 9
  | .ret => 10
  | .goto => 11
  | .jumpIfFalse => 12
  | .new => 13
  | .get => 14
  | .put => 15

/-- The opcode that a word of a code unit stands for. -/
def ofNumber? (number : UInt32) : Option Opcode :=
  match number.toNat with
  | 1 => some .constant
  | 2 => some .lookup
  | 3 => some .register
  | 4 => some .load
  | 5 => some .store
  | 6 => some .duplicate
  | 7 => some .pop
  | 8 => some .swap
  | 9 => some .call
  | 10 => some .ret
  | 11 => some .goto
  | 12 => some .jumpIfFalse
  | 13 => some .new
  | 14 => some .get
  | 15 => some .put
  | _ => none

/-- The name of an opcode in listings and error messages. -/
def mnemonic : Opcode → String
  | .constant => "CONST"
  | .lookup => "LOOKUP"
  | .register => "REGISTER"
  | .load => "LOAD"
  | .store => "STORE"
  | .duplicate => "DUP"
  | .pop => "POP"
  | .swap => "SWAP"
  | .call => "FUNCALL"
  | .ret => "RET"
  | .goto => "GOTO"
  | .jumpIfFalse => "JUMP_IF_FALSE"
  | .new => "NEW"
  | .get => "GET"
  | .put => "PUT"

/-- Four opcodes stand alone, and each of the others is followed by one operand word. -/
def takesOperand : Opcode → Bool
  | .duplicate | .pop | .swap | .ret => false
  | _ => true

/-- The words that an instruction with this opcode occupies. -/
def size (opcode : Opcode) : Nat :=
  if opcode.takesOperand then 2 else 1

/-- Every opcode is read back from its number. -/
@[simp] theorem ofNumber?_number (opcode : Opcode) : ofNumber? opcode.number = some opcode := by
  cases opcode <;> rfl

/-- A number stands for an opcode exactly when it is the number of that opcode. -/
theorem ofNumber?_eq_some_iff (number : UInt32) (opcode : Opcode) :
    ofNumber? number = some opcode ↔ number = opcode.number := by
  constructor
  · intro hsome
    apply UInt32.toNat_inj.mp
    unfold ofNumber? at hsome
    split at hsome <;> simp_all [Opcode.number] <;> subst hsome <;> rfl
  · rintro rfl
    exact ofNumber?_number opcode

end Opcode

/-- The operand words that follow a word in the position of an opcode: none after the four opcodes
that stand alone, and one after every other number. -/
def operandCount (number : UInt32) : Nat :=
  match Opcode.ofNumber? number with
  | some opcode => if opcode.takesOperand then 1 else 0
  | none => 1

end ScriptMachine
