import ScriptMachine.Code.Fetch
import ScriptMachine.Lowering
import ScriptMachine.Proofs.Operation

/-!
# Fragments inside a code unit

`CodeUnit.HasAt` says that a fragment stands at an offset of a code unit. A fragment stands at the start of
its own assembly (`Fragment.hasAt_assemble`), the parts of a fragment stand one after the other
(`CodeUnit.HasAt.append`), and where an emission stands its instruction is read (`CodeUnit.HasAt.cons`). What
the machine does there is the operation of the emission, once the constants say what its word stands for.
-/

set_option autoImplicit false
set_option relaxedAutoImplicit false

namespace ScriptMachine

/-- The words of a fragment that stands at an offset. -/
def Fragment.wordsAt : (offset : Nat) → Fragment → List UInt32
  | _, [] => []
  | offset, emission :: rest => (emission.place offset).words ++ wordsAt (offset + emission.size) rest

/-- A fragment stands at an offset of a code unit. -/
def CodeUnit.HasAt (unit : CodeUnit) (offset : Nat) (fragment : Fragment) : Prop :=
  ∃ before after : List UInt32, unit.code.toList = before ++ Fragment.wordsAt offset fragment ++ after ∧
    before.length = offset

/-- An instruction has an operand word exactly when its opcode takes one. -/
theorem Instruction.takesOperand_opcode (instruction : Instruction) :
    instruction.opcode.takesOperand = instruction.operand?.isSome := by
  cases instruction <;> rfl

/-- An emission has its size wherever it stands. -/
theorem Emission.size_place (emission : Emission) (offset : Nat) :
    (emission.place offset).size = emission.size := by
  cases emission <;> rfl

/-! ### Operations of emissions -/

namespace Emission

variable {table : ConstantTable} {offset : Nat} {line : UInt32} {word : Word} {name : String}

theorem operation?_constant {value : Value} (hword : table.value? [] word = some value) :
    ((plain (.constant word) line).place offset).operation? table = some (.push value) := by
  simp only [place, Instruction.operation?, hword, Option.map_some]

theorem operation?_lookup (hword : table.text? word = some name) :
    ((plain (.lookup word) line).place offset).operation? table = some (.lookup name) := by
  simp only [place, Instruction.operation?, hword, Option.map_some]

theorem operation?_register (hword : table.text? word = some name) :
    ((plain (.register word) line).place offset).operation? table = some (.register name) := by
  simp only [place, Instruction.operation?, hword, Option.map_some]

theorem operation?_get (hword : table.text? word = some name) :
    ((plain (.get word) line).place offset).operation? table = some (.get name) := by
  simp only [place, Instruction.operation?, hword, Option.map_some]

theorem operation?_put (hword : table.text? word = some name) :
    ((plain (.put word) line).place offset).operation? table = some (.put name) := by
  simp only [place, Instruction.operation?, hword, Option.map_some]

theorem operation?_new {layout : Class} (hword : table.layout? word = some layout) :
    ((plain (.new word) line).place offset).operation? table = some (.new layout) := by
  simp only [place, Instruction.operation?, hword, Option.map_some]

theorem operation?_call {argumentCount : Nat} (hcount : (UInt32.ofNat argumentCount).toNat = argumentCount) :
    ((plain (.call (UInt32.ofNat argumentCount)) line).place offset).operation? table =
      some (.call argumentCount) := by
  simp only [place, Instruction.operation?, hcount]

end Emission

/-! ### Words of fragments -/

namespace Fragment

/-- A fragment has its size wherever it stands. -/
@[simp] theorem length_wordsAt (offset : Nat) (fragment : Fragment) :
    (wordsAt offset fragment).length = fragment.size := by
  induction fragment generalizing offset with
  | nil => rfl
  | cons emission rest ih =>
    rw [wordsAt, List.length_append, Instruction.length_words, Emission.size_place, ih, size]

/-- The second of two joined fragments stands behind the first one. -/
theorem wordsAt_append (offset : Nat) (first second : Fragment) :
    wordsAt offset (first ++ second) = wordsAt offset first ++ wordsAt (offset + size first) second := by
  induction first generalizing offset with
  | nil => rfl
  | cons emission rest ih =>
    rw [List.cons_append, wordsAt, wordsAt, ih, size, List.append_assoc, Nat.add_assoc]

/-! ### Assembling -/

/-- Writing an emission adds the words of its instruction. -/
theorem toList_write (buffer : CodeBuffer) (emission : Emission) :
    (write buffer emission).code.toList =
      buffer.code.toList ++ (emission.place buffer.code.size).words := by
  unfold write Instruction.words
  dsimp only [CodeBuffer.label]
  cases (emission.place buffer.code.size).operand? <;> simp [CodeBuffer.emit, CodeBuffer.operand]

/-- Writing an emission adds as many words as the emission has. -/
theorem size_write (buffer : CodeBuffer) (emission : Emission) :
    (write buffer emission).code.size = buffer.code.size + emission.size := by
  rw [← Array.length_toList, toList_write, List.length_append, Instruction.length_words, Emission.size_place,
    Array.length_toList]

/-- Writing an emission records its line. -/
theorem lines_write (buffer : CodeBuffer) (emission : Emission) :
    (write buffer emission).lines = CodeBuffer.recordLine buffer.lines buffer.code.size emission.line := by
  unfold write
  dsimp only
  split <;> rfl

/-- Writing a fragment adds the words that it has behind those written before. -/
theorem toList_foldl_write (fragment : Fragment) (buffer : CodeBuffer) :
    (fragment.foldl write buffer).code.toList =
      buffer.code.toList ++ wordsAt buffer.code.size fragment := by
  induction fragment generalizing buffer with
  | nil => simp [wordsAt]
  | cons emission rest ih =>
    rw [List.foldl_cons, ih, toList_write, size_write, wordsAt, List.append_assoc]

/-- The code of an assembled fragment is its words. -/
theorem toList_assemble (fragment : Fragment) (parameterCount slotCount : Nat) :
    (fragment.assemble parameterCount slotCount).code.toList = wordsAt 0 fragment :=
  toList_foldl_write fragment CodeBuffer.empty

/-- The code of an assembled fragment is as long as the fragment. -/
theorem size_assemble (fragment : Fragment) (parameterCount slotCount : Nat) :
    (fragment.assemble parameterCount slotCount).code.size = fragment.size := by
  rw [← Array.length_toList, toList_assemble, length_wordsAt]

/-- A fragment stands at the start of its assembly. -/
theorem hasAt_assemble (fragment : Fragment) (parameterCount slotCount : Nat) :
    (fragment.assemble parameterCount slotCount).HasAt 0 fragment :=
  ⟨[], [], by rw [toList_assemble, List.append_nil, List.nil_append], rfl⟩

end Fragment

namespace CodeUnit.HasAt

variable {unit : CodeUnit} {offset : Nat}

/-- Joined fragments stand one behind the other. -/
theorem append {first second : Fragment} (hcode : unit.HasAt offset (first ++ second)) :
    unit.HasAt offset first ∧ unit.HasAt (offset + Fragment.size first) second := by
  obtain ⟨before, after, hwords, hlength⟩ := hcode
  rw [Fragment.wordsAt_append] at hwords
  refine ⟨⟨before, Fragment.wordsAt (offset + Fragment.size first) second ++ after, ?_, hlength⟩,
    ⟨before ++ Fragment.wordsAt offset first, after, ?_, ?_⟩⟩
  · rw [hwords]
    simp only [List.append_assoc]
  · rw [hwords]
    simp only [List.append_assoc]
  · rw [List.length_append, hlength, Fragment.length_wordsAt]

/-- A fragment lies inside the code. -/
theorem le_size {fragment : Fragment} (hcode : unit.HasAt offset fragment) :
    offset + Fragment.size fragment ≤ unit.code.size := by
  obtain ⟨before, after, hwords, hlength⟩ := hcode
  have hsize := congrArg List.length hwords
  simp only [Array.length_toList, List.length_append, Fragment.length_wordsAt] at hsize
  omega

/-- The words of an instruction are read as that instruction. -/
theorem instructionAt_of_words {before after : List UInt32} {instruction : Instruction}
    (hwords : unit.code.toList = before ++ instruction.words ++ after) :
    unit.instructionAt before.length = .ok instruction := by
  have hopcode : unit.code[before.length]? = some instruction.opcode.number := by
    rw [← Array.getElem?_toList, hwords]
    simp [Instruction.words]
  have hoperand : instruction.opcode.takesOperand = true →
      unit.code[before.length + 1]? = some (instruction.operand?.getD 0) := by
    intro htakes
    rw [instruction.takesOperand_opcode] at htakes
    obtain ⟨operand, hoperand⟩ := Option.isSome_iff_exists.mp htakes
    rw [← Array.getElem?_toList, hwords]
    simp [Instruction.words, hoperand]
  have hparts := instruction.ofParts_parts
  unfold CodeUnit.instructionAt
  rw [hopcode]
  dsimp only
  rw [Opcode.ofNumber?_number]
  dsimp only
  split
  case isTrue htakes =>
    rw [hoperand htakes]
    dsimp only
    rw [hparts]
  case isFalse halone =>
    rw [instruction.takesOperand_opcode] at halone
    rw [Option.not_isSome_iff_eq_none.mp halone] at hparts
    exact congrArg Except.ok hparts

/-- Where an emission stands, its instruction is read. -/
theorem cons {emission : Emission} {rest : Fragment} (hcode : unit.HasAt offset (emission :: rest)) :
    unit.instructionAt offset = .ok (emission.place offset) ∧
      unit.HasAt (offset + emission.size) rest := by
  obtain ⟨before, after, hwords, rfl⟩ := hcode
  rw [Fragment.wordsAt] at hwords
  have hfirst : unit.code.toList = before ++ (emission.place before.length).words ++
      (Fragment.wordsAt (before.length + emission.size) rest ++ after) := by
    rw [hwords]
    simp only [List.append_assoc]
  refine ⟨instructionAt_of_words hfirst,
    ⟨before ++ (emission.place before.length).words, after, ?_, ?_⟩⟩
  · rw [hwords]
    simp only [List.append_assoc]
  · rw [List.length_append, Instruction.length_words, Emission.size_place]

/-- Where an emission stands, the operation of its instruction is read. -/
theorem operationAt {emission : Emission} {rest : Fragment} {table : ConstantTable} {operation : Operation}
    (hcode : unit.HasAt offset (emission :: rest))
    (hresolved : (emission.place offset).operation? table = some operation) :
    unit.operationAt table offset = some (operation, offset + emission.size) := by
  rw [CodeUnit.operationAt_eq hcode.cons.1 hresolved, Emission.size_place]

/-- Where a branch stands, the condition, the jump over the first arm, the first arm, the jump over the second arm, and
the second arm stand one behind the other. -/
theorem branch {condition thenCode elseCode : Fragment} {line : UInt32}
    (hcode : unit.HasAt offset (Lowering.branch condition thenCode elseCode line)) :
    unit.HasAt offset condition ∧
      unit.HasAt (offset + Fragment.size condition) [.skipIfFalse (Fragment.size thenCode + 2) line] ∧
      unit.HasAt (offset + Fragment.size condition + 2) thenCode ∧
      unit.HasAt (offset + Fragment.size condition + 2 + Fragment.size thenCode)
        [.skip (Fragment.size elseCode) line] ∧
      unit.HasAt (offset + Fragment.size condition + 2 + Fragment.size thenCode + 2) elseCode := by
  obtain ⟨hfront, helse⟩ := hcode.append
  obtain ⟨hfront, hskip⟩ := hfront.append
  obtain ⟨hfront, hthen⟩ := hfront.append
  obtain ⟨hcondition, hjump⟩ := hfront.append
  simp only [Fragment.size_append, ← Nat.add_assoc] at helse hskip hthen
  exact ⟨hcondition, hjump, hthen, hskip, helse⟩

end CodeUnit.HasAt

/-- A branch is as long as its parts with the two jumps between them. -/
theorem Fragment.size_branch (offset : Nat) (condition thenCode elseCode : Fragment) (line : UInt32) :
    offset + size (Lowering.branch condition thenCode elseCode line) =
      offset + size condition + 2 + size thenCode + 2 + size elseCode := by
  simp only [Lowering.branch, size_append, size, Emission.size]
  omega

end ScriptMachine
