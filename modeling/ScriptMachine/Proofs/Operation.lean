import Mathlib.Tactic.SplitIfs
import ScriptMachine.Machine.Step
import ScriptMachine.Proofs.Holding

/-!
# Operations

An `Operation` is an instruction whose operand has been resolved: a value to push instead of the word of a
constant, a name instead of the word of a text, a class instead of the word of a class.
`CodeUnit.operationAt` reads the operation at an offset together with the offset of the one behind it. It
answers with nothing where no instruction can be read or where a word does not stand for what its
instruction needs.
-/

set_option autoImplicit false
set_option relaxedAutoImplicit false

namespace ScriptMachine

/-- An instruction of the stack machine with its operand resolved. -/
inductive Operation where
  | push (value : Value)
  | lookup (name : String)
  | register (name : String)
  | load (slot : Nat)
  | store (slot : Nat)
  | duplicate
  | pop
  | swap
  | call (argumentCount : Nat)
  | ret
  | goto (target : Nat)
  | jumpIfFalse (target : Nat)
  | new (layout : Class)
  | get (name : String)
  | put (name : String)

namespace ConstantTable

/-- The text that a word refers to. -/
def text? (table : ConstantTable) (word : Word) : Option String :=
  match table.constant? word with
  | some (.text content) => some content
  | _ => none

/-- The class that a word refers to. -/
def layout? (table : ConstantTable) (word : Word) : Option Class :=
  match table.constant? word with
  | some (.layout shape) => some shape
  | _ => none

theorem text?_eq_some_iff {table : ConstantTable} {word : Word} {content : String} :
    table.text? word = some content ↔ table.constant? word = some (.text content) := by
  unfold text?
  split
  case h_1 found hfound => simp [hfound]
  case h_2 hother =>
    constructor
    · intro hnone
      cases hnone
    · intro htext
      exact absurd htext (hother content)

theorem layout?_eq_some_iff {table : ConstantTable} {word : Word} {shape : Class} :
    table.layout? word = some shape ↔ table.constant? word = some (.layout shape) := by
  unfold layout?
  split
  case h_1 found hfound => simp [hfound]
  case h_2 hother =>
    constructor
    · intro hnone
      cases hnone
    · intro hlayout
      exact absurd hlayout (hother shape)

end ConstantTable

/-- The operation of an instruction, whose operand the constants have to know. -/
def Instruction.operation? (table : ConstantTable) : Instruction → Option Operation
  | .constant word => (table.value? [] word).map .push
  | .lookup name => (table.text? name).map .lookup
  | .register name => (table.text? name).map .register
  | .load slot => some (.load slot.toNat)
  | .store slot => some (.store slot.toNat)
  | .duplicate => some .duplicate
  | .pop => some .pop
  | .swap => some .swap
  | .call argumentCount => some (.call argumentCount.toNat)
  | .ret => some .ret
  | .goto target => some (.goto target.toNat)
  | .jumpIfFalse target => some (.jumpIfFalse target.toNat)
  | .new layout => (table.layout? layout).map .new
  | .get name => (table.text? name).map .get
  | .put name => (table.text? name).map .put

/-- The operation at an offset and the offset behind it. -/
def CodeUnit.operationAt (unit : CodeUnit) (table : ConstantTable) (offset : Nat) :
    Option (Operation × Nat) :=
  match unit.instructionAt offset with
  | .error _ => none
  | .ok instruction =>
    (instruction.operation? table).map fun operation ↦ (operation, offset + instruction.size)

/-- An instruction that can be read is the operation that its operand makes of it. -/
theorem CodeUnit.operationAt_eq {unit : CodeUnit} {table : ConstantTable} {offset : Nat} {instruction : Instruction}
    {operation : Operation} (hinstruction : unit.instructionAt offset = .ok instruction)
    (hresolved : instruction.operation? table = some operation) :
    unit.operationAt table offset = some (operation, offset + instruction.size) := by
  unfold CodeUnit.operationAt
  rw [hinstruction]
  dsimp only
  rw [hresolved]
  rfl

/-- The operation at an offset comes from an instruction there. -/
theorem CodeUnit.exists_instruction_of_operationAt {unit : CodeUnit} {table : ConstantTable}
    {offset next : Nat} {operation : Operation}
    (hoperation : unit.operationAt table offset = some (operation, next)) :
    ∃ instruction : Instruction, unit.instructionAt offset = .ok instruction ∧
      instruction.operation? table = some operation ∧ next = offset + instruction.size := by
  unfold CodeUnit.operationAt at hoperation
  split at hoperation
  case h_1 => cases hoperation
  case h_2 instruction hinstruction =>
    obtain ⟨found, hfound, hpair⟩ := Option.map_eq_some_iff.mp hoperation
    obtain ⟨rfl, rfl⟩ := Prod.mk.inj hpair
    exact ⟨instruction, hinstruction, hfound, rfl⟩

/-- Only the instruction of a call is one. -/
theorem Instruction.eq_call_of_operation? {table : ConstantTable} {instruction : Instruction}
    {argumentCount : Nat} (hresolved : instruction.operation? table = some (.call argumentCount)) :
    ∃ operand : UInt32, instruction = .call operand ∧ argumentCount = operand.toNat := by
  cases instruction <;> simp only [operation?, Option.map_eq_some_iff] at hresolved
  case call operand =>
    cases hresolved
    exact ⟨operand, rfl, rfl⟩
  case constant | lookup | register | new | get | put =>
    obtain ⟨_, -, hother⟩ := hresolved
    cases hother
  all_goals cases hresolved

/-- An instruction that can be read lies inside the code. -/
theorem CodeUnit.add_size_le_of_instructionAt {unit : CodeUnit} {offset : Nat}
    {instruction : Instruction} (hinstruction : unit.instructionAt offset = .ok instruction) :
    offset + instruction.size ≤ unit.code.size := by
  have hinside : ∀ {position : Nat} {word : UInt32},
      unit.code[position]? = some word → position < unit.code.size :=
    fun hword ↦ (Array.getElem?_eq_some_iff.mp hword).1
  unfold CodeUnit.instructionAt at hinstruction
  split at hinstruction
  case h_1 => cases hinstruction
  case h_2 number hnumber =>
    split at hinstruction
    case h_1 => cases hinstruction
    case h_2 opcode hopcode =>
      have hsize : ∀ operand : UInt32, (Instruction.ofParts opcode operand).size = opcode.size := by
        intro operand
        cases opcode <;> rfl
      split_ifs at hinstruction with htakes
      · split at hinstruction
        case h_1 => cases hinstruction
        case h_2 operand hoperand =>
          obtain rfl := Except.ok.inj hinstruction
          rw [hsize, Opcode.size, if_pos htakes]
          exact hinside hoperand
      · obtain rfl := Except.ok.inj hinstruction
        rw [hsize, Opcode.size, if_neg htakes]
        exact hinside hnumber

/-- Every instruction takes up at least one word. -/
theorem Instruction.size_pos (instruction : Instruction) : 0 < instruction.size := by
  cases instruction <;> exact Nat.succ_pos _

/-- More constants leave every operation as it is. -/
theorem Instruction.operation?_mono {table larger : ConstantTable} (hextends : table.Extends larger)
    {instruction : Instruction} {operation : Operation}
    (hoperation : instruction.operation? table = some operation) :
    instruction.operation? larger = some operation := by
  have htext : ∀ (word : Word) (content : String),
      table.text? word = some content → larger.text? word = some content := by
    intro word content htext
    rw [ConstantTable.text?_eq_some_iff] at htext ⊢
    exact ConstantTable.constant?_mono hextends htext
  have hlayout : ∀ (word : Word) (shape : Class),
      table.layout? word = some shape → larger.layout? word = some shape := by
    intro word shape hlayout
    rw [ConstantTable.layout?_eq_some_iff] at hlayout ⊢
    exact ConstantTable.constant?_mono hextends hlayout
  cases instruction <;> simp only [operation?, Option.map_eq_some_iff] at hoperation ⊢
  case constant word =>
    exact hoperation.imp fun _ hfound ↦
      ⟨ConstantTable.value?_mono hextends (Store.KeepsLayouts.refl _) hfound.1, hfound.2⟩
  case new word => exact hoperation.imp fun _ hfound ↦ ⟨hlayout _ _ hfound.1, hfound.2⟩
  case lookup word | register word | get word | put word =>
    exact hoperation.imp fun _ hfound ↦ ⟨htext _ _ hfound.1, hfound.2⟩
  all_goals exact hoperation

theorem CodeUnit.operationAt_mono {unit : CodeUnit} {table larger : ConstantTable}
    (hextends : table.Extends larger) {offset next : Nat} {operation : Operation}
    (hoperation : unit.operationAt table offset = some (operation, next)) :
    unit.operationAt larger offset = some (operation, next) := by
  obtain ⟨instruction, hinstruction, hresolved, rfl⟩ :=
    CodeUnit.exists_instruction_of_operationAt hoperation
  unfold CodeUnit.operationAt
  rw [hinstruction]
  dsimp only
  rw [Instruction.operation?_mono hextends hresolved]
  rfl

end ScriptMachine
