import Mathlib.Algebra.Order.BigOperators.Group.List
import ScriptMachine.Proofs.CompiledScripts
import ScriptMachine.Proofs.ListingRows

/-!
# Lines of listings

A listing ends the row of each instruction with a newline. Texts are shown between quotes, where a newline is escaped,
but the name of a function and the field names of a class are shown as they are (`Instruction.bareNames`). So a listing
has a line for every instruction exactly where these names have no newlines, and otherwise more
(`CodeUnit.ConsistsOf.listed`).
-/

set_option autoImplicit false
set_option relaxedAutoImplicit false

namespace ScriptMachine

/-! ### Lines of a text -/

namespace Text

/-- The lines of a text, each of which a newline ends. -/
def lines (text : String) : List String :=
  (text.toList.splitOn '\n').dropLast.map String.ofList

/-- There are as many lines as newlines. -/
theorem length_lines (text : String) : (lines text).length = text.toList.count '\n' := by
  have hpieces : ∀ characters : List Char,
      (characters.splitOnP fun character ↦ character == '\n').length = characters.count '\n' + 1 := by
    intro characters
    induction characters with
    | nil => rfl
    | cons character rest ih =>
      rw [List.splitOnP_cons_eq_if_modifyHead, List.count_cons]
      split_ifs
      · rw [List.length_cons, ih]
      · rw [List.length_modifyHead, ih]
  rw [lines, List.length_map, List.length_dropLast, List.splitOn, hpieces, Nat.add_sub_cancel]

/-- Rows without newlines that a newline ends are the lines of their text. -/
theorem lines_join {rows : List String} (hrows : ∀ row ∈ rows, '\n' ∉ row.toList) :
    lines (String.join (rows.map fun row ↦ row ++ "\n")) = rows := by
  have hpieces : ((String.join (rows.map fun row ↦ row ++ "\n")).toList.splitOn '\n') =
      rows.map String.toList ++ [[]] := by
    rw [String.toList_join, List.flatMap_map]
    induction rows with
    | nil => rfl
    | cons row rest ih =>
      obtain ⟨hrow, hrest⟩ := List.forall_mem_cons.mp hrows
      have hnone : ∀ character ∈ row.toList, (character == '\n') = false := fun character hmem ↦
        beq_eq_false_iff_ne.mpr fun hsame ↦ hrow (hsame ▸ hmem)
      rw [List.flatMap_cons, String.toList_append, List.append_assoc, List.map_cons, List.cons_append, ← ih hrest]
      exact List.splitOnP_append_cons_of_forall_mem hnone '\n' rfl _
  rw [lines, hpieces, List.dropLast_concat, List.map_map]
  exact (List.map_congr_left fun row _ ↦ String.ofList_toList).trans (List.map_id rows)

/-- Rows that a newline ends have a line each and one more for every newline in them. -/
theorem length_lines_join (rows : List String) :
    (lines (String.join (rows.map fun row ↦ row ++ "\n"))).length =
      rows.length + (rows.map fun row ↦ row.toList.count '\n').sum := by
  have hrow : ∀ row : String, (row ++ "\n").toList.count '\n' = row.toList.count '\n' + 1 := fun row ↦ by
    rw [String.toList_append, List.count_append]
    rfl
  rw [length_lines, String.toList_join, List.flatMap_map, List.count_flatMap]
  simp only [Function.comp_def, hrow]
  induction rows with
  | nil => rfl
  | cons row rest ih =>
    rw [List.map_cons, List.sum_cons, ih, List.length_cons, List.map_cons, List.sum_cons]
    omega

/-! ### Texts without newlines -/

/-- Digits are no newlines. -/
theorem newline_notMem_toString (number : Nat) : '\n' ∉ (toString number).toList := by
  intro hmem
  have hdigit := Nat.isDigit_of_mem_toDigits (by decide) (Nat.le_refl 10) (Nat.toList_repr ▸ hmem)
  exact absurd hdigit (by decide)

/-- The digits of a code point are no newlines. -/
theorem newline_notMem_toDigits (number : Nat) : '\n' ∉ Nat.toDigits 16 number := by
  have hdigit : ∀ digit < 16, '\n' ≠ Nat.digitChar digit := by decide
  induction number using Nat.strongRecOn with
  | ind number ih =>
    rcases Nat.lt_or_ge number 16 with hsmall | hlarge
    · rw [Nat.toDigits_of_lt_base hsmall, List.mem_singleton]
      exact hdigit number hsmall
    · rw [Nat.toDigits_of_base_le (by decide) hlarge, List.mem_append, List.mem_singleton]
      exact fun hmem ↦ hmem.elim (ih (number / 16) (by omega)) (hdigit _ (Nat.mod_lt _ (by decide)))

/-- A quoted text has no newlines. -/
theorem newline_notMem_quote (content : String) : '\n' ∉ (quote content).toList := by
  have hcharacter : ∀ character : Char, '\n' ∉ quoteCharacter character := by
    intro character hmem
    unfold quoteCharacter at hmem
    split_ifs at hmem with hquote hbackslash hnewline
    all_goals first
      | exact absurd hmem (by decide)
      | skip
    · exact hnewline (List.mem_singleton.mp hmem).symm
    · simp only [codePointEscape, List.mem_append] at hmem
      rcases hmem with (hfront | hdigits) | hback
      · exact absurd hfront (by decide)
      · exact newline_notMem_toDigits _ hdigits
      · exact absurd hback (by decide)
    · exact hnewline (List.mem_singleton.mp hmem).symm
  rw [quote, String.toList_ofList, List.cons_append, List.mem_cons, List.mem_append, List.mem_flatMap]
  rintro (hfirst | ⟨character, -, hmem⟩ | hlast)
  · exact absurd hfirst (by decide)
  · exact hcharacter character hmem
  · exact absurd hlast (by decide)

end Text

/-! ### Names that are shown as they are -/

/-- The names in the text of a value: that of a function, or those of the fields of a class. -/
def Value.bareNames : Value → List String
  | .function callee => [callee.name]
  | .layout shape => shape.fields
  | .object reference => reference.layout.fields
  | _ => []

/-- The names that a listing shows as they are for a word. -/
def ConstantTable.bareNames (table : ConstantTable) (word : Word) : List String :=
  ((table.constant? word).map Value.bareNames).getD []

/-- The names that a listing shows as they are for an instruction. -/
def Instruction.bareNames (table : ConstantTable) : Instruction → List String
  | .constant word | .lookup word | .register word | .new word | .get word | .put word => table.bareNames word
  | _ => []

/-- Some of these names have newlines. -/
def HasNewlines (names : List String) : Prop :=
  ∃ name ∈ names, '\n' ∈ name.toList

/-- There is a newline between joined parts where there is one in a part. -/
theorem newline_mem_intercalate (fields : List String) :
    '\n' ∈ (", ".intercalate fields).toList ↔ HasNewlines fields := by
  have hparts : ∀ parts : List (List Char),
      '\n' ∈ List.intercalate ", ".toList parts ↔ ∃ part ∈ parts, '\n' ∈ part := by
    intro parts
    induction parts with
    | nil => simp [List.intercalate]
    | cons part rest ih =>
      cases rest with
      | nil => simp [List.intercalate]
      | cons next rest =>
        have hseparator : '\n' ∉ ", ".toList := by decide
        have hsplit : List.intercalate ", ".toList (part :: next :: rest) =
            part ++ (", ".toList ++ List.intercalate ", ".toList (next :: rest)) := by
          simp [List.intercalate]
        rw [hsplit, List.mem_append, List.mem_append, ih, or_iff_right hseparator]
        simp only [List.exists_mem_cons_iff]
  rw [String.toList_intercalate, hparts, HasNewlines]
  simp only [List.mem_map, exists_exists_and_eq_and]

/-- A value is shown with a newline where one of its names has one. -/
theorem Value.newline_mem_shown (value : Value) : '\n' ∈ value.shown.toList ↔ HasNewlines value.bareNames := by
  have hnone : ¬HasNewlines [] := by rintro ⟨name, ⟨⟩, -⟩
  have hfields : ∀ shape : Class, '\n' ∈ (Value.fieldList shape).toList ↔ HasNewlines shape.fields := by
    intro shape
    rw [← newline_mem_intercalate, Value.fieldList, String.toList_append, String.toList_append]
    simp
  cases value with
  | undefined | globalScope => exact iff_of_false (by decide) hnone
  | boolean truth => cases truth <;> exact iff_of_false (by decide) hnone
  | text content => exact iff_of_false (Text.newline_notMem_quote content) hnone
  | integer number =>
    refine iff_of_false ?_ hnone
    change '\n' ∉ (toString number.toInt).toList
    cases number.toInt with
    | ofNat magnitude => exact Text.newline_notMem_toString magnitude
    | negSucc magnitude =>
      change '\n' ∉ ("-" ++ toString (magnitude + 1)).toList
      rw [String.toList_append, List.mem_append]
      exact fun hmem ↦ hmem.elim (by decide) (Text.newline_notMem_toString _)
  | function callee =>
    change '\n' ∈ ("function " ++ callee.name).toList ↔ HasNewlines [callee.name]
    rw [String.toList_append, HasNewlines]
    simp
  | layout shape =>
    change '\n' ∈ ("class " ++ Value.fieldList shape).toList ↔ HasNewlines shape.fields
    rw [← hfields, String.toList_append, List.mem_append]
    exact or_iff_right (by decide)
  | object reference =>
    change '\n' ∈ ("object@" ++ toString reference.index.toNat ++ " " ++ Value.fieldList reference.layout).toList ↔
      HasNewlines reference.layout.fields
    have hindex := Text.newline_notMem_toString reference.index.toNat
    rw [← hfields]
    simp only [String.toList_append, List.mem_append]
    refine or_iff_right ?_
    rintro ((hfirst | hsecond) | hthird)
    · exact absurd hfirst (by decide)
    · exact hindex hsecond
    · exact absurd hthird (by decide)

/-- A word is described with a newline where one of the names that it stands for has one. -/
theorem newline_mem_describeWord (table : ConstantTable) (word : Word) :
    '\n' ∈ (describeWord table word).toList ↔ HasNewlines (table.bareNames word) := by
  rw [ConstantTable.bareNames]
  cases hconstant : table.constant? word with
  | some value =>
    rw [describeWord_eq_shown (ConstantTable.value?_of_constant? hconstant)]
    exact value.newline_mem_shown
  | none =>
    refine iff_of_false ?_ (by rintro ⟨name, ⟨⟩, -⟩)
    unfold ConstantTable.constant? at hconstant
    unfold describeWord
    cases hkind : word.kind with
    | smallInteger number => exact Text.newline_notMem_toString number.toNat
    | reference index =>
      dsimp only
      rw [String.toList_append, List.mem_append]
      exact fun hmem ↦ hmem.elim (by decide) (Text.newline_notMem_toString _)
    | constant index =>
      rw [hkind] at hconstant
      dsimp only at hconstant ⊢
      rw [hconstant]
      simp only [String.toList_append, List.mem_append]
      rintro ((hfirst | hsecond) | hthird)
      · exact absurd hfirst (by decide)
      · exact Text.newline_notMem_toString _ hsecond
      · exact absurd hthird (by decide)

/-! ### Rows -/

section Rows

variable {unit : CodeUnit} {table : ConstantTable}

/-- An operand is shown with a newline where one of the names of its instruction has one. -/
theorem Instruction.newline_mem_operandText (table : ConstantTable) (instruction : Instruction) :
    '\n' ∈ (operandText table instruction.opcode instruction.operand?).toList ↔
      HasNewlines (instruction.bareNames table) := by
  have hspace : ∀ text : String, '\n' ∈ (" " ++ text).toList ↔ '\n' ∈ text.toList := fun text ↦ by
    rw [String.toList_append, List.mem_append]
    exact or_iff_right (by decide)
  have hnumber : ∀ number : UInt32, '\n' ∈ (" " ++ toString number.toNat).toList ↔ HasNewlines [] := fun number ↦
    iff_of_false (fun hmem ↦ Text.newline_notMem_toString _ ((hspace _).mp hmem)) (by rintro ⟨name, ⟨⟩, -⟩)
  cases instruction with
  | constant word | lookup word | register word | new word | get word | put word =>
    exact (hspace _).trans (newline_mem_describeWord table word)
  | load number | store number | call number | goto number | jumpIfFalse number => exact hnumber number
  | duplicate | pop | swap | ret =>
    change '\n' ∈ "".toList ↔ HasNewlines []
    exact iff_of_false (by decide) (by rintro ⟨name, ⟨⟩, -⟩)

/-- An offset is shown in digits, of which there are at least four. -/
theorem offsetText_digits (offset : Nat) :
    4 ≤ (offsetText offset).length ∧ ∀ character ∈ (offsetText offset).toList, character.isDigit = true := by
  constructor
  · rw [offsetText, String.length_append, String.length_ofList, List.length_replicate]
    omega
  · intro character hmem
    rw [offsetText, String.toList_append, String.toList_ofList, List.mem_append] at hmem
    rcases hmem with hzero | hdigit
    · rw [List.eq_of_mem_replicate hzero]
      rfl
    · exact Nat.isDigit_of_mem_toDigits (by decide) (Nat.le_refl 10) (Nat.toList_repr ▸ hdigit)

/-- A row has a newline where one of the names of its instruction has one. -/
theorem CodeUnit.newline_mem_row (shown : Option UInt32) (place : Nat × Instruction) :
    '\n' ∈ (unit.row table shown place).toList ↔ HasNewlines (place.2.bareNames table) := by
  have hoffset : '\n' ∉ (offsetText place.1).toList := fun hmem ↦
    absurd ((offsetText_digits place.1).2 _ hmem) (by decide)
  have hmnemonic : '\n' ∉ place.2.opcode.mnemonic.toList := by
    cases place.2.opcode <;> decide
  have hremark : '\n' ∉ (lineRemark shown (unit.lineAt place.1)).toList := by
    unfold lineRemark
    split_ifs
    · decide
    · rw [String.toList_append, List.mem_append]
      exact fun hmem ↦ hmem.elim (by decide) (Text.newline_notMem_toString _)
  have hspaces : '\n' ∉ "  ".toList := by decide
  rw [← place.2.newline_mem_operandText, CodeUnit.row]
  simp only [String.toList_append, List.mem_append, hoffset, hmnemonic, hremark, hspaces, false_or, or_false]

end Rows

/-! ### Listings -/

/-- What the listing of a code unit with some instructions shows: as many lines at least as there are instructions, and
exactly as many where no name that is shown as it is has newlines. Then the lines are those of the instructions one by
one, each with its offset and its mnemonic in front. The offsets increase, and the target of every jump is one of
them. -/
structure CodeUnit.Listed (unit : CodeUnit) (table : ConstantTable) (instructions : List Instruction) : Prop where
  atLeast : instructions.length ≤ (Text.lines (unit.listing table)).length
  exactly : (Text.lines (unit.listing table)).length = instructions.length ↔
    ∀ instruction ∈ instructions, ¬HasNewlines (instruction.bareNames table)
  shows : (∀ instruction ∈ instructions, ¬HasNewlines (instruction.bareNames table)) →
    ∀ (position offset : Nat) (instruction : Instruction),
      (Instruction.placed 0 instructions)[position]? = some (offset, instruction) → ∃ remark : String,
        (Text.lines (unit.listing table))[position]? = some (offsetText offset ++ "  " ++ instruction.opcode.mnemonic ++
          operandText table instruction.opcode instruction.operand? ++ remark)
  offsets : ∀ offset : Nat, 4 ≤ (offsetText offset).length ∧
    ∀ character ∈ (offsetText offset).toList, character.isDigit = true
  increasing : ((Instruction.placed 0 instructions).map Prod.fst).Pairwise (· < ·)
  targets : unit.code.size < 4294967296 → ∀ (target : UInt32),
    (Instruction.goto target ∈ instructions ∨ Instruction.jumpIfFalse target ∈ instructions) →
      target.toNat ∈ (Instruction.placed 0 instructions).map Prod.fst

namespace Instruction

/-- Instructions one behind the other are those that are placed. -/
theorem map_snd_placed (instructions : List Instruction) (offset : Nat) :
    (placed offset instructions).map Prod.snd = instructions := by
  induction instructions generalizing offset with
  | nil => rfl
  | cons instruction rest ih => rw [placed, List.map_cons, ih]

/-- Instructions are placed from an offset on, each behind the one before. -/
theorem pairwise_placed (instructions : List Instruction) (offset : Nat) :
    (∀ place ∈ placed offset instructions, offset ≤ place.1) ∧
      ((placed offset instructions).map Prod.fst).Pairwise (· < ·) := by
  induction instructions generalizing offset with
  | nil => exact ⟨List.forall_mem_nil _, List.Pairwise.nil⟩
  | cons instruction rest ih =>
    obtain ⟨hbehind, hrest⟩ := ih (offset + instruction.size)
    have hpositive := instruction.size_pos
    refine ⟨List.forall_mem_cons.mpr ⟨Nat.le_refl _, fun place hplace ↦ ?_⟩, List.pairwise_cons.mpr ⟨?_, hrest⟩⟩
    · exact Nat.le_trans (Nat.le_add_right _ _) (hbehind place hplace)
    · intro other hother
      obtain ⟨place, hplace, rfl⟩ := List.mem_map.mp hother
      exact Nat.lt_of_lt_of_le (Nat.lt_add_of_pos_right hpositive) (hbehind place hplace)

end Instruction

section Listings

variable {unit : CodeUnit} {table : ConstantTable} {instructions : List Instruction}

/-- Rows have no newlines exactly where the names of their instructions have none. -/
theorem CodeUnit.rows_newline_iff (shown : Option UInt32) (places : List (Nat × Instruction)) :
    (∀ row ∈ unit.rows table shown places, '\n' ∉ row.toList) ↔
      ∀ instruction ∈ places.map Prod.snd, ¬HasNewlines (instruction.bareNames table) := by
  induction places generalizing shown with
  | nil => exact iff_of_true (List.forall_mem_nil _) (List.forall_mem_nil _)
  | cons place rest ih =>
    rw [rows, List.map_cons, List.forall_mem_cons, List.forall_mem_cons, ih, newline_mem_row]

/-- A listing has a line for every instruction at least, and no more lines where names that it shows as they are have no
newlines. -/
theorem CodeUnit.length_lines_listing (hwords : unit.code.toList = instructions.flatMap Instruction.words)
    (table : ConstantTable) :
    instructions.length ≤ (Text.lines (unit.listing table)).length ∧
      ((Text.lines (unit.listing table)).length = instructions.length ↔
        ∀ instruction ∈ instructions, ¬HasNewlines (instruction.bareNames table)) := by
  have hclean := @CodeUnit.rows_newline_iff unit table none (Instruction.placed 0 instructions)
  rw [Instruction.map_snd_placed] at hclean
  have hcount := Text.length_lines_join (unit.rows table none (Instruction.placed 0 instructions))
  rw [← listing_eq_rows hwords table, length_rows, ← List.length_map (f := Prod.snd), Instruction.map_snd_placed]
    at hcount
  refine ⟨by omega, ?_⟩
  rw [hcount, ← hclean, Nat.add_eq_left, List.sum_eq_zero_iff, List.forall_mem_map]
  exact forall₂_congr fun row _ ↦ List.count_eq_zero

/-- A listing has more lines where a name that it shows as it is has newlines. -/
theorem CodeUnit.lt_length_lines_listing (hwords : unit.code.toList = instructions.flatMap Instruction.words)
    (hnames : ∃ instruction ∈ instructions, HasNewlines (instruction.bareNames table)) :
    instructions.length < (Text.lines (unit.listing table)).length := by
  obtain ⟨hatLeast, hexactly⟩ := length_lines_listing hwords table
  obtain ⟨instruction, hmem, hnewlines⟩ := hnames
  exact Nat.lt_of_le_of_ne hatLeast fun hsame ↦ hexactly.mp hsame.symm instruction hmem hnewlines

/-- The targets of jumps in verifiable code are starts of instructions. -/
theorem CodeUnit.ConsistsOf.target_mem (hconsists : unit.ConsistsOf table instructions)
    (hsize : unit.code.size < 4294967296) {target : UInt32}
    (hjump : Instruction.goto target ∈ instructions ∨ Instruction.jumpIfFalse target ∈ instructions) :
    target.toNat ∈ (Instruction.placed 0 instructions).map Prod.fst := by
  obtain ⟨depth, -, -, hbalanced⟩ := hconsists.depths
  have hnumber : ∀ number : Nat, number ∈ (Instruction.placed 0 instructions).map Prod.fst →
      (UInt32.ofNat number).toNat = number := by
    intro number hmem
    obtain ⟨place, hplace, rfl⟩ := List.mem_map.mp hmem
    have hinside := CodeUnit.add_size_le_of_instructionAt (hconsists.operands place hplace).1
    exact UInt32.toNat_ofNat_of_lt' (show place.1 < 4294967296 by omega)
  rcases hjump with hgoto | hbranch
  · rw [← Instruction.map_snd_placed instructions 0] at hgoto
    obtain ⟨⟨offset, instruction⟩, hplace, rfl⟩ := List.mem_map.mp hgoto
    obtain ⟨operation, hmeans, -, -, hnext⟩ := hbalanced _ hplace
    cases hmeans with
    | goto number =>
      have hstart := (hnext number (List.mem_singleton_self number)).2.1
      rwa [hnumber number hstart]
  · rw [← Instruction.map_snd_placed instructions 0] at hbranch
    obtain ⟨⟨offset, instruction⟩, hplace, rfl⟩ := List.mem_map.mp hbranch
    obtain ⟨operation, hmeans, -, -, hnext⟩ := hbalanced _ hplace
    cases hmeans with
    | jumpIfFalse number =>
      have hstart := (hnext number List.mem_cons_self).2.1
      rwa [hnumber number hstart]

/-- Verifiable code is listed line by line, up to newlines in names. -/
theorem CodeUnit.ConsistsOf.listed (hconsists : unit.ConsistsOf table instructions) :
    unit.Listed table instructions := by
  obtain ⟨hatLeast, hexactly⟩ := CodeUnit.length_lines_listing hconsists.words table
  refine ⟨hatLeast, hexactly, fun hnames position offset instruction hplace ↦ ?_, offsetText_digits,
    (Instruction.pairwise_placed _ _).2, fun hsize target ↦ hconsists.target_mem hsize⟩
  have hclean := @CodeUnit.rows_newline_iff unit table none (Instruction.placed 0 instructions)
  rw [Instruction.map_snd_placed] at hclean
  obtain ⟨last, hrow⟩ := @CodeUnit.exists_row unit table none _ position _ hplace
  refine ⟨lineRemark last (unit.lineAt offset), ?_⟩
  rw [CodeUnit.listing_eq_rows hconsists.words table, Text.lines_join (hclean.mpr hnames), hrow]
  rfl

end Listings

/-! ### Listings of scripts -/

/-- Every function of an accepted script, the one of its body and every function literal, is listed line by line, up to
newlines in the names of functions and fields. -/
theorem compileScript_listed {strict : Bool} {script : Script} {workspace after : Workspace} {main : Routine}
    (hfresh : workspace.Fresh) (haccepted : compileScript strict script workspace = .ok main after) :
    (∃ instructions : List Instruction, main.unit.ConsistsOf after.constants instructions ∧
      main.unit.Listed after.constants instructions) ∧
    ∀ closure ∈ closuresOf workspace.nextIdentity script.body.nodes,
      ∃ (routine : Routine) (instructions : List Instruction),
        .function (.compiled routine) ∈ after.constants.entries ∧ routine.Implements closure after.constants ∧
          routine.unit.ConsistsOf after.constants instructions ∧ routine.unit.Listed after.constants instructions := by
  have hyields := yields_compileScript strict script workspace
  unfold Lowering.Yields at hyields
  rw [haccepted] at hyields
  obtain ⟨-, -, hcompletes⟩ := hyields
  constructor
  · obtain ⟨instructions, hconsists⟩ := (hcompletes.implements hfresh).verifiable
    exact ⟨instructions, hconsists, hconsists.listed⟩
  · intro closure hclosure
    obtain ⟨routine, hmem, himplements⟩ := hcompletes.collects.implemented hfresh closure hclosure
    obtain ⟨instructions, hconsists⟩ := himplements.verifiable
    exact ⟨routine, instructions, hmem, himplements, hconsists, hconsists.listed⟩

/-- The script of a function `pick` is accepted over the empty table, and both its functions are listed. -/
theorem compileScript_listed_picking :
    Workspace.Fresh ⟨.empty, 0⟩ ∧ ∃ (main : Routine) (after : Workspace),
      compileScript true Script.picking ⟨.empty, 0⟩ = .ok main after ∧
        (∃ instructions : List Instruction, main.unit.Listed after.constants instructions) ∧
        ∀ closure ∈ closuresOf 0 Script.picking.body.nodes, ∃ (routine : Routine) (instructions : List Instruction),
          routine.Implements closure after.constants ∧ routine.unit.Listed after.constants instructions := by
  have hfresh : Workspace.Fresh ⟨.empty, 0⟩ := by
    refine ⟨rfl, fun entry hentry identity hidentity ↦ ?_⟩
    obtain rfl : entry = .undefined := List.mem_singleton.mp (Array.mem_toList_iff.mpr hentry)
    cases hidentity
  obtain ⟨main, after, haccepted⟩ := exists_compileScript (by decide : Script.picking.violations true = []) ⟨.empty, 0⟩
  obtain ⟨⟨instructions, -, hlisted⟩, hliterals⟩ := compileScript_listed hfresh haccepted
  refine ⟨hfresh, main, after, haccepted, ⟨instructions, hlisted⟩, fun closure hclosure ↦ ?_⟩
  obtain ⟨routine, found, -, himplements, -, hshown⟩ := hliterals closure hclosure
  exact ⟨routine, found, himplements, hshown⟩

/-- A script that makes an object whose field has a newline in its name. -/
def Script.broken : Script :=
  ⟨⟨[.object [⟨"a\nb", .literal (.integer 1) 0⟩] 0], 1⟩⟩

open Lowering in
/-- The body of this script is listed in more lines than it has instructions. -/
theorem lines_listing_broken :
    ∃ (main : Routine) (after : Workspace) (instructions : List Instruction),
      compileScript false Script.broken ⟨.empty, 0⟩ = .ok main after ∧
        main.unit.code.toList = instructions.flatMap Instruction.words ∧
        instructions.length < (Text.lines (main.unit.listing after.constants)).length := by
  generalize hcompiled : compileScript false Script.broken ⟨.empty, 0⟩ = compiled
  simp [compileScript, compileFunction, Script.broken, routineOf, SlotTable.allocate, declarationsOf,
    Node.declarations, fieldDeclarations, lowerStatements, lowerNode, lowerFields,
    SlotTable.receiverName, constant, freshIdentity, literalWord, firstRepeated?, bind, EStateM.bind, pure,
    EStateM.pure, Except.bind, Except.pure, statementOf, valueOf, Node.isStatement, undefinedAt, endLine,
    SlotTable.size, Node.line, Word.ofInteger?, Word.smallIntegerLimit,
    -bind_pure_comp] at hcompiled
  subst hcompiled
  obtain ⟨hword, hentries⟩ := @ConstantTable.box_new .empty (.layout ⟨0, ["a\nb"]⟩) fun entry hentry ↦ by
    obtain rfl : entry = .undefined := List.mem_singleton.mp (Array.mem_toList_iff.mpr hentry)
    rintro ⟨⟩
  have hboxed : (ConstantTable.empty.box (.layout ⟨0, ["a\nb"]⟩)).2.Boxed
      (ConstantTable.empty.box (.layout ⟨0, ["a\nb"]⟩)).1 (.layout ⟨0, ["a\nb"]⟩) :=
    ⟨1, by rw [hentries]; rfl, hword⟩
  have hlayout := hboxed.constant?_eq (by rw [ConstantTable.size, hentries]; decide)
  refine ⟨_, _, [.constant (.smallInteger 1), .new _, .pop, .constant .undefined, .ret], rfl,
    Fragment.toList_assemble _ _ _, ?_⟩
  refine CodeUnit.lt_length_lines_listing (Fragment.toList_assemble _ _ _)
    ⟨.new _, List.mem_cons_of_mem _ List.mem_cons_self, "a\nb", ?_, by decide⟩
  rw [Instruction.bareNames, ConstantTable.bareNames, hlayout]
  exact List.mem_singleton_self _

end ScriptMachine
