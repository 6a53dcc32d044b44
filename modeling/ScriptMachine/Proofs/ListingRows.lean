import ScriptMachine.Code.Listing
import ScriptMachine.Proofs.VerifiableCode

/-!
# Rows of listings

A listing finds the instructions of a code unit again by itself, word by word. Where the words are those of some
instructions, it has a row for each of them (`CodeUnit.listing_eq_rows`), which depends on the instruction, its offset
and its line, and on the line shown last.
-/

set_option autoImplicit false
set_option relaxedAutoImplicit false

namespace ScriptMachine

/-! ### Words -/

/-- What a listing shows for a value. -/
def Value.shown (value : Value) : String :=
  match value with
  | .text content => Text.quote content
  | other => other.toText

/-- A word is described by the value that it holds. -/
theorem describeWord_eq_shown {table : ConstantTable} {word : Word} {value : Value}
    (hword : table.value? [] word = some value) : describeWord table word = value.shown := by
  unfold ConstantTable.value? at hword
  unfold describeWord
  cases hkind : word.kind with
  | smallInteger number =>
    rw [hkind] at hword
    obtain rfl := Option.some.inj hword
    have hsmall : (Int64.ofNat number.toNat).toInt = number.toNat := by
      have hless := number.toNat_lt
      rw [Int64.toInt_ofNat_of_lt (by omega)]
    dsimp only [Value.shown, Value.toText]
    rw [hsmall]
    rfl
  | constant index =>
    rw [hkind] at hword
    dsimp only at hword ⊢
    rw [hword]
    cases value <;> rfl
  | reference index =>
    rw [hkind] at hword
    cases hword

/-! ### Rows -/

/-- There are no more instructions than words. -/
theorem Instruction.length_le_words (instructions : List Instruction) :
    instructions.length ≤ (instructions.flatMap Instruction.words).length := by
  induction instructions with
  | nil => exact Nat.le_refl _
  | cons instruction rest ih =>
    have hpositive := instruction.size_pos
    rw [List.flatMap_cons, List.length_append, instruction.length_words, List.length_cons]
    omega

namespace CodeUnit

/-- The row of a listing for an instruction at an offset, given the source line shown last. -/
def row (unit : CodeUnit) (constants : ConstantTable) (shown : Option UInt32) (place : Nat × Instruction) : String :=
  offsetText place.1 ++ "  " ++ place.2.opcode.mnemonic ++ operandText constants place.2.opcode place.2.operand? ++
    lineRemark shown (unit.lineAt place.1)

/-- The rows of a listing for instructions at their offsets, given the source line shown last. -/
def rows (unit : CodeUnit) (constants : ConstantTable) :
    (shown : Option UInt32) → List (Nat × Instruction) → List String
  | _, [] => []
  | shown, place :: rest => unit.row constants shown place :: unit.rows constants (some (unit.lineAt place.1)) rest

/-- There is a row for every instruction. -/
@[simp] theorem length_rows (unit : CodeUnit) (constants : ConstantTable) (shown : Option UInt32)
    (places : List (Nat × Instruction)) : (unit.rows constants shown places).length = places.length := by
  induction places generalizing shown with
  | nil => rfl
  | cons place rest ih => rw [rows, List.length_cons, List.length_cons, ih]

/-- Every row is that of its instruction. -/
theorem exists_row {unit : CodeUnit} {constants : ConstantTable} {shown : Option UInt32}
    {places : List (Nat × Instruction)} {position : Nat} {place : Nat × Instruction}
    (hplace : places[position]? = some place) :
    ∃ last : Option UInt32, (unit.rows constants shown places)[position]? = some (unit.row constants last place) := by
  induction places generalizing shown position with
  | nil => cases hplace
  | cons first rest ih =>
    cases position with
    | zero =>
      obtain rfl := Option.some.inj hplace
      exact ⟨shown, rfl⟩
    | succ position => exact ih hplace

/-- The operand that a listing finds behind an opcode is that of the instruction. -/
theorem operandText_eq {unit : CodeUnit} {before after : List UInt32} {instruction : Instruction}
    (hwords : unit.code.toList = before ++ instruction.words ++ after) (constants : ConstantTable) :
    operandText constants instruction.opcode unit.code[before.length + 1]? =
      operandText constants instruction.opcode instruction.operand? := by
  unfold operandText
  by_cases htakes : instruction.opcode.takesOperand = true
  · have hoperand : unit.code[before.length + 1]? = instruction.operand? := by
      rw [instruction.takesOperand_opcode] at htakes
      obtain ⟨operand, hoperand⟩ := Option.isSome_iff_exists.mp htakes
      rw [← Array.getElem?_toList, hwords]
      simp [Instruction.words, hoperand]
    rw [hoperand]
  · rw [if_neg htakes, if_neg htakes]

/-- From the start of an instruction on, a listing has the rows of the instructions that the words are read as. -/
theorem listingLines_eq_rows {unit : CodeUnit} (constants : ConstantTable) {before : List UInt32}
    {instructions : List Instruction} (hwords : unit.code.toList = before ++ instructions.flatMap Instruction.words)
    {count : Nat} (hcount : instructions.length ≤ count) (shown : Option UInt32) :
    unit.listingLines constants count before.length shown =
      unit.rows constants shown (Instruction.placed before.length instructions) := by
  induction instructions generalizing before count shown with
  | nil =>
    have hend : unit.code[before.length]? = none := by
      rw [← Array.getElem?_toList, hwords]
      simp
    cases count with
    | zero => rfl
    | succ count =>
      rw [listingLines, hend]
      rfl
  | cons instruction rest ih =>
    obtain ⟨count, rfl⟩ : ∃ fewer : Nat, count = fewer + 1 := ⟨count - 1, by rw [List.length_cons] at hcount; omega⟩
    rw [List.flatMap_cons, ← List.append_assoc] at hwords
    have hopcode : unit.code[before.length]? = some instruction.opcode.number := by
      rw [← Array.getElem?_toList, hwords]
      simp [Instruction.words]
    have hrest := ih hwords (Nat.le_of_succ_le_succ hcount) (some (unit.lineAt before.length))
    rw [List.length_append, instruction.length_words] at hrest
    rw [listingLines, hopcode]
    dsimp only
    rw [Opcode.ofNumber?_number]
    dsimp only
    rw [operandText_eq hwords, ← Instruction.size, hrest]
    rfl

/-- The listing of a code unit whose words are those of some instructions has a row for each of them. -/
theorem listing_eq_rows {unit : CodeUnit} {instructions : List Instruction}
    (hwords : unit.code.toList = instructions.flatMap Instruction.words) (constants : ConstantTable) :
    unit.listing constants = String.join
      ((unit.rows constants none (Instruction.placed 0 instructions)).map fun line ↦ line ++ "\n") := by
  have hcount : instructions.length ≤ unit.code.size := by
    rw [← Array.length_toList, hwords]
    exact Instruction.length_le_words instructions
  have hlines := listingLines_eq_rows constants (hwords.trans (List.nil_append _).symm) hcount none
  rw [List.length_nil] at hlines
  rw [listing, hlines]

end CodeUnit

end ScriptMachine
