import ScriptMachine.Engine
import ScriptMachine.Proofs.ListingRows
import ScriptMachine.Proofs.Twins

/-!
# Listings of alike code

A listing shows for the operand of an instruction what the operand stands for, so that it depends on the operation of
the instruction alone (`Instruction.operandText_eq_shown`). Code that is alike is therefore listed alike, although its
words number the constants differently (`Fragment.Alike.listing_eq`), and twins have the same section in a dump
(`Closure.Twin.section_eq`).
-/

set_option autoImplicit false
set_option relaxedAutoImplicit false

namespace ScriptMachine

/-! ### What is shown -/

/-- What a listing shows for the operand of an operation, with a space in front. -/
def Operation.shown : Operation → String
  | .push value => " " ++ value.shown
  | .lookup name | .register name | .get name | .put name => " " ++ Text.quote name
  | .load number | .store number | .call number | .goto number | .jumpIfFalse number => " " ++ toString number
  | .new layout => " " ++ (Value.layout layout).toText
  | .duplicate | .pop | .swap | .ret => ""

/-- A listing shows the operand of the operation that an instruction stands for. -/
theorem Instruction.operandText_eq_shown {table : ConstantTable} {instruction : Instruction} {operation : Operation}
    (hoperation : instruction.operation? table = some operation) :
    operandText table instruction.opcode instruction.operand? = operation.shown := by
  have htext : ∀ {word : Word} {name : String}, table.text? word = some name →
      describeWord table word = Text.quote name := fun hword ↦
    describeWord_eq_shown (ConstantTable.value?_of_constant? (ConstantTable.text?_eq_some_iff.mp hword))
  cases instruction with
  | constant word =>
    obtain ⟨value, hword, rfl⟩ := Option.map_eq_some_iff.mp hoperation
    exact congrArg (" " ++ ·) (describeWord_eq_shown hword)
  | lookup word | register word | get word | put word =>
    obtain ⟨name, hword, rfl⟩ := Option.map_eq_some_iff.mp hoperation
    exact congrArg (" " ++ ·) (htext hword)
  | new word =>
    obtain ⟨layout, hword, rfl⟩ := Option.map_eq_some_iff.mp hoperation
    exact congrArg (" " ++ ·)
      (describeWord_eq_shown (ConstantTable.value?_of_constant? (ConstantTable.layout?_eq_some_iff.mp hword)))
  | load | store | duplicate | pop | swap | call | ret | goto | jumpIfFalse =>
    obtain rfl := Option.some.inj hoperation
    rfl

section Likeness

variable {likeness : Likeness} {table table' : ConstantTable}

/-- Alike operations are shown alike. -/
theorem Operation.Like.shown_eq (hfaithful : likeness.Faithful) {operation operation' : Operation}
    (hlike : operation.Like likeness operation') : operation.shown = operation'.shown := by
  cases hlike with
  | push hvalue =>
    have htext := hvalue.toText_eq hfaithful
    cases hvalue with
    | text => rfl
    | _ => exact congrArg (" " ++ ·) htext
  | new hlayout => exact congrArg (" " ++ ·) (Value.Like.toText_eq hfaithful (.layout hlayout))
  | plain => rfl

/-! ### Alike code -/

/-- Instructions at one offset, of one kind and with operands that are shown alike. -/
structure Instruction.ShownAlike (table table' : ConstantTable) (place place' : Nat × Instruction) : Prop where
  offset : place.1 = place'.1
  opcode : place.2.opcode = place'.2.opcode
  operand : operandText table place.2.opcode place.2.operand? = operandText table' place'.2.opcode place'.2.operand?

/-- Code units with the same line table have the same rows for instructions that are shown alike. -/
theorem CodeUnit.rows_eq {unit unit' : CodeUnit} (hlines : unit.lines = unit'.lines)
    {places places' : List (Nat × Instruction)}
    (hplaces : List.Forall₂ (Instruction.ShownAlike table table') places places') (shown : Option UInt32) :
    unit.rows table shown places = unit'.rows table' shown places' := by
  have hline : ∀ offset : Nat, unit.lineAt offset = unit'.lineAt offset := fun offset ↦ by
    unfold lineAt
    rw [hlines]
  induction hplaces generalizing shown with
  | nil => rfl
  | cons hplace _ ih => rw [rows, rows, ih, row, row, hplace.operand, hplace.opcode, hplace.offset, hline]

namespace Fragment.Alike

variable {code code' : Fragment}

/-- The instructions of alike code are shown alike wherever it stands. -/
theorem placed (halike : Alike likeness table table' code code') (hfaithful : likeness.Faithful) (offset : Nat) :
    List.Forall₂ (Instruction.ShownAlike table table') (Fragment.placed offset code)
      (Fragment.placed offset code') := by
  induction halike generalizing offset with
  | nil => exact .nil
  | plain line hopcode hoperation hoperation' hlike =>
    refine .cons ⟨rfl, hopcode, ?_⟩ .nil
    exact (Instruction.operandText_eq_shown hoperation).trans
      ((hlike.shown_eq hfaithful).trans (Instruction.operandText_eq_shown hoperation').symm)
  | append hfirst _ ihFirst ihSecond =>
    rw [placed_append, placed_append, ← hfirst.size_eq]
    exact List.rel_append (ihFirst offset) (ihSecond _)
  | branch line hcondition hthen helse ihCondition ihThen ihElse =>
    -- the jumps go to the same offsets on both sides
    simp only [Lowering.branch, placed_append, size_append, ← hcondition.size_eq, ← hthen.size_eq, ← helse.size_eq]
    refine List.rel_append (List.rel_append (List.rel_append (List.rel_append (ihCondition offset) ?_) (ihThen _)) ?_)
      (ihElse _)
    · exact .cons ⟨rfl, rfl, rfl⟩ .nil
    · exact .cons ⟨rfl, rfl, rfl⟩ .nil

/-- Alike code is listed alike. -/
theorem listing_eq (halike : Alike likeness table table' code code') (hfaithful : likeness.Faithful)
    (parameterCount slotCount : Nat) :
    (assemble code parameterCount slotCount).listing table =
      (assemble code' parameterCount slotCount).listing table' := by
  have hwords : ∀ fragment : Fragment, (assemble fragment parameterCount slotCount).code.toList =
      ((Fragment.placed 0 fragment).map Prod.snd).flatMap Instruction.words := fun fragment ↦ by
    rw [toList_assemble, wordsAt_eq_flatMap]
  rw [CodeUnit.listing_eq_rows (hwords code), CodeUnit.listing_eq_rows (hwords code'), placed_instructions,
    placed_instructions, CodeUnit.rows_eq (halike.lines_assemble _ _ _ _) (halike.placed hfaithful 0)]

end Fragment.Alike

/-- Twins have the same section in a dump. -/
theorem Closure.Twin.section_eq {matching : Matching} {closure closure' : Closure}
    (htwin : closure.Twin matching closure') (hcovers : likeness.Covers matching table table')
    (hfaithful : likeness.Faithful) {routine routine' : Routine} (hcompiled : closure.Compiled table routine)
    (hcompiled' : closure'.Compiled table' routine') (hline : routine.unit.lastLine? = routine'.unit.lastLine?) :
    routine.section table = routine'.section table' := by
  obtain ⟨slots, last, body, body', halike, hunit, hunit'⟩ := htwin.exists_alike hcovers hcompiled hcompiled' hline
  have hlisting := (halike.concat_ret last).listing_eq hfaithful (closure.parameters.length + 1) slots.size
  unfold Routine.section
  rw [hcompiled.name, hcompiled'.name, htwin.name, hunit, hunit', hlisting]
  rfl

end Likeness

end ScriptMachine
