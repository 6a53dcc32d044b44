import ScriptMachine.Lowering
import ScriptMachine.Proofs.AssembledCode
import ScriptMachine.Proofs.LikeCalls

/-!
# Alike code

`Fragment.Alike` says that two fragments have the same instructions with the same lines, up to words that stand for
alike values. It follows the structure of fragments: single instructions, fragments that are joined, and conditionals.
Alike fragments take up as many words and leave the same line table (`Fragment.Alike.foldl_write`), so that where both
stand, the code from there on matches when the code behind them does (`Fragment.Alike.matches_of`).
-/

set_option autoImplicit false
set_option relaxedAutoImplicit false

namespace ScriptMachine

/-- Two fragments consist of the same instructions with the same lines, up to words that stand for alike values. -/
inductive Fragment.Alike (likeness : Likeness) (table table' : ConstantTable) : Fragment → Fragment → Prop where
  | nil : Alike likeness table table' [] []
  | plain {instruction instruction' : Instruction} {operation operation' : Operation} (line : UInt32)
      (hopcode : instruction.opcode = instruction'.opcode)
      (hoperation : instruction.operation? table = some operation)
      (hoperation' : instruction'.operation? table' = some operation')
      (hlike : operation.Like likeness operation')
      (hnext : ∀ next : Nat, ∀ target ∈ operation.successors next, target = next) :
      Alike likeness table table' [.plain instruction line] [.plain instruction' line]
  | append {first first' second second' : Fragment} (hfirst : Alike likeness table table' first first')
      (hsecond : Alike likeness table table' second second') :
      Alike likeness table table' (first ++ second) (first' ++ second')
  | branch {condition condition' thenCode thenCode' elseCode elseCode' : Fragment} (line : UInt32)
      (hcondition : Alike likeness table table' condition condition')
      (hthen : Alike likeness table table' thenCode thenCode')
      (helse : Alike likeness table table' elseCode elseCode') :
      Alike likeness table table' (Lowering.branch condition thenCode elseCode line)
        (Lowering.branch condition' thenCode' elseCode' line)

/-! ### Code buffers -/

/-- Two buffers have as many words and the same line table. -/
structure CodeBuffer.InStep (buffer buffer' : CodeBuffer) : Prop where
  size : buffer.code.size = buffer'.code.size
  lines : buffer.lines = buffer'.lines

namespace Fragment

/-- Buffers stay in step when emissions of the same size and with the same line are written to both. -/
theorem inStep_write {buffer buffer' : CodeBuffer} (hstep : buffer.InStep buffer') {emission emission' : Emission}
    (hsize : emission.size = emission'.size) (hline : emission.line = emission'.line) :
    (write buffer emission).InStep (write buffer' emission') := by
  refine ⟨?_, ?_⟩
  · rw [size_write, size_write, hstep.size, hsize]
  · rw [lines_write, lines_write, hstep.lines, hstep.size, hline]

end Fragment

namespace Fragment.Alike

variable {likeness : Likeness} {table table' : ConstantTable} {code code' : Fragment}

/-- Alike fragments take up as many words. -/
theorem size_eq (halike : Alike likeness table table' code code') : size code = size code' := by
  induction halike with
  | nil => rfl
  | plain line hopcode => simp only [size, Emission.size, Instruction.size, hopcode]
  | append _ _ ihFirst ihSecond => rw [size_append, size_append, ihFirst, ihSecond]
  | branch line _ _ _ ihCondition ihThen ihElse =>
    simp only [Lowering.branch, size_append, size, Emission.size, ihCondition, ihThen, ihElse]

/-- Buffers stay in step when alike fragments are written to both. -/
theorem foldl_write (halike : Alike likeness table table' code code') {buffer buffer' : CodeBuffer}
    (hstep : buffer.InStep buffer') : (code.foldl write buffer).InStep (code'.foldl write buffer') := by
  induction halike generalizing buffer buffer' with
  | nil => exact hstep
  | plain line hopcode => exact inStep_write hstep (by simp only [Emission.size, Instruction.size, hopcode]) rfl
  | append _ _ ihFirst ihSecond =>
    rw [List.foldl_append, List.foldl_append]
    exact ihSecond (ihFirst hstep)
  | branch line _ hthen helse ihCondition ihThen ihElse =>
    simp only [Lowering.branch, List.foldl_append, List.foldl_cons, List.foldl_nil, hthen.size_eq, helse.size_eq]
    exact ihElse (inStep_write (ihThen (inStep_write (ihCondition hstep) rfl rfl)) rfl rfl)

/-- Alike fragments are assembled with the same line table. -/
theorem lines_assemble (halike : Alike likeness table table' code code')
    (parameterCount parameterCount' slotCount slotCount' : Nat) :
    (assemble code parameterCount slotCount).lines = (assemble code' parameterCount' slotCount').lines :=
  (halike.foldl_write ⟨rfl, rfl⟩).lines

/-! ### Code units -/

end Fragment.Alike

/-- Where an instruction is read, its mnemonic is the one for an error message. -/
theorem CodeUnit.mnemonicAt_eq {unit : CodeUnit} {offset : Nat} {instruction : Instruction}
    (hinstruction : unit.instructionAt offset = .ok instruction) :
    unit.mnemonicAt offset = instruction.opcode.mnemonic := by
  have hopcode : ∀ (opcode : Opcode) (operand : UInt32), (Instruction.ofParts opcode operand).opcode = opcode := by
    intro opcode operand
    cases opcode <;> rfl
  unfold instructionAt at hinstruction
  unfold mnemonicAt
  cases hnumber : unit.code[offset]? with
  | none =>
    rw [hnumber] at hinstruction
    cases hinstruction
  | some number =>
    rw [hnumber] at hinstruction
    dsimp only [Option.bind_some] at hinstruction ⊢
    cases hfound : Opcode.ofNumber? number with
    | none =>
      rw [hfound] at hinstruction
      cases hinstruction
    | some opcode =>
      rw [hfound] at hinstruction
      dsimp only at hinstruction ⊢
      split_ifs at hinstruction
      · split at hinstruction
        · cases hinstruction
        · cases hinstruction
          rw [hopcode]
      · cases hinstruction
        rw [hopcode]

section Units

variable {likeness : Likeness} {table table' : ConstantTable} {unit unit' : CodeUnit} {offset : Nat}

/-- Where two code units with the same line table have alike operations of the same kind, they match when they do
wherever the first one can go on. -/
theorem CodeUnit.HasAt.matches_cons {emission emission' : Emission} {rest rest' : Fragment}
    (hcode : unit.HasAt offset (emission :: rest)) (hcode' : unit'.HasAt offset (emission' :: rest'))
    (hlines : unit.lines = unit'.lines)
    (hopcode : (emission.place offset).opcode = (emission'.place offset).opcode) {operation operation' : Operation}
    (hoperation : (emission.place offset).operation? table = some operation)
    (hoperation' : (emission'.place offset).operation? table' = some operation')
    (hlike : operation.Like likeness operation')
    (hlater : ∀ target ∈ operation.successors (offset + emission.size),
      unit.Matches likeness unit' table table' target) :
    unit.Matches likeness unit' table table' offset := by
  have hsize : emission.size = emission'.size := by
    rw [← Emission.size_place emission offset, ← Emission.size_place emission' offset, Instruction.size,
      Instruction.size, hopcode]
  refine .step (hcode.operationAt hoperation) ?_ hlike ?_ ?_ hlater
  · rw [hsize]
    exact hcode'.operationAt hoperation'
  · unfold CodeUnit.lineAt
    rw [hlines]
  · rw [CodeUnit.mnemonicAt_eq hcode.cons.1, CodeUnit.mnemonicAt_eq hcode'.cons.1, hopcode]

/-- Where alike fragments stand in two code units with the same line table, the code matches when the code behind
them does. -/
theorem Fragment.Alike.matches_of {code code' : Fragment} (halike : Alike likeness table table' code code')
    (hlines : unit.lines = unit'.lines) (hsize : unit.code.size < 4294967296) (hcode : unit.HasAt offset code)
    (hcode' : unit'.HasAt offset code')
    (hnext : unit.Matches likeness unit' table table' (offset + size code)) :
    unit.Matches likeness unit' table table' offset := by
  have hnumber : ∀ {number : Nat}, number ≤ unit.code.size → (UInt32.ofNat number).toNat = number :=
    fun hsmall ↦ UInt32.toNat_ofNat_of_lt' (Nat.lt_of_le_of_lt hsmall hsize)
  induction halike generalizing offset with
  | nil => exact hnext
  | plain line hopcode hoperation hoperation' hlike hsuccessors =>
    refine hcode.matches_cons hcode' hlines hopcode hoperation hoperation' hlike fun target htarget ↦ ?_
    rw [hsuccessors _ target htarget]
    exact hnext
  | append hfirst _ ihFirst ihSecond =>
    rw [size_append, ← Nat.add_assoc] at hnext
    refine ihFirst hcode.append.1 hcode'.append.1 (ihSecond hcode.append.2 ?_ hnext)
    rw [hfirst.size_eq]
    exact hcode'.append.2
  | @branch condition condition' thenCode thenCode' elseCode elseCode' line hcondition hthen helse ihCondition ihThen
      ihElse =>
    obtain ⟨hconditionCode, hbranch, hthenCode, hskip, helseCode⟩ := hcode.branch
    obtain ⟨hconditionCode', hbranch', hthenCode', hskip', helseCode'⟩ := hcode'.branch
    rw [size_branch] at hnext
    simp only [← hcondition.size_eq, ← hthen.size_eq, ← helse.size_eq] at hbranch' hthenCode' hskip' helseCode'
    obtain ⟨start, hstart⟩ : ∃ start : Nat, offset + size condition = start := ⟨_, rfl⟩
    rw [hstart] at hnext hskip hthenCode helseCode hbranch hskip' hthenCode' helseCode' hbranch'
    have hend : start + 2 + size thenCode + 2 + size elseCode ≤ unit.code.size := helseCode.le_size
    have helseMatches := ihElse helseCode helseCode' hnext
    have hskipMatches : unit.Matches likeness unit' table table' (start + 2 + size thenCode) := by
      refine hskip.matches_cons hskip' hlines rfl rfl rfl (.plain trivial) fun target htarget ↦ ?_
      obtain rfl := List.mem_singleton.mp htarget
      rw [hnumber hend]
      exact hnext
    refine ihCondition hconditionCode hconditionCode' ?_
    rw [hstart]
    have htarget : start + 2 + (size thenCode + 2) ≤ unit.code.size := by omega
    refine hbranch.matches_cons hbranch' hlines rfl rfl rfl (.plain trivial) fun target hmem ↦ ?_
    rcases List.mem_cons.mp hmem with rfl | hmem
    · rw [hnumber htarget]
      exact helseMatches
    · obtain rfl := List.mem_singleton.mp hmem
      exact ihThen hthenCode hthenCode' hskipMatches

end Units

end ScriptMachine
