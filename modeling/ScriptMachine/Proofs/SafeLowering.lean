import ScriptMachine.Proofs.AssembledCode
import ScriptMachine.Proofs.Lowered
import ScriptMachine.Proofs.SafeCode
import ScriptMachine.Proofs.SlotLayout

/-!
# Compiled code is safe

Where the code of a part of a program stands in a code unit, that part can be run safely as soon as what
follows it can be: it leaves as many operands more as it has values (`Lowered.safe`). A whole function ends
with a return, behind which nothing follows, so that its code is safe without conditions
(`Closure.Compiled.verified`).
-/

set_option autoImplicit false
set_option relaxedAutoImplicit false

namespace ScriptMachine

/-- A safe place may be written differently. -/
theorem CodeUnit.Safe.congr {unit : CodeUnit} {table : ConstantTable} {offset depth : Nat}
    (hsafe : unit.Safe table offset depth) {sameOffset sameDepth : Nat} (hoffset : offset = sameOffset)
    (hdepth : depth = sameDepth) : unit.Safe table sameOffset sameDepth :=
  hoffset ▸ hdepth ▸ hsafe

namespace CodeUnit.HasAt

variable {unit : CodeUnit} {table : ConstantTable} {offset depth : Nat} {emission : Emission}
  {rest : Fragment}

/-- An operation that is followed by the next one is safe when the next one is. -/
theorem safe {operation : Operation} (hcode : unit.HasAt offset (emission :: rest))
    (hresolved : (emission.place offset).operation? table = some operation)
    (hpops : operation.pops ≤ depth) (hslot : ∀ slot ∈ operation.slot?, slot < unit.slotCount)
    (hnext : operation.successors (offset + emission.size) = [offset + emission.size])
    (hsafe : unit.Safe table (offset + emission.size) (depth - operation.pops + operation.pushes)) :
    unit.Safe table offset depth := by
  have hsize : 0 < emission.size := by
    rw [← emission.size_place offset]
    exact Instruction.size_pos _
  refine .step (hcode.operationAt hresolved) hpops hslot ?_ ?_
  · intro target htarget
    rw [hnext, List.mem_singleton] at htarget
    omega
  · intro target htarget
    rw [hnext, List.mem_singleton] at htarget
    rw [htarget]
    exact hsafe

/-- An operation that uses no slot and is followed by the next one is safe when the next one is. -/
theorem safe_plain {operation : Operation} (hcode : unit.HasAt offset (emission :: rest))
    (hresolved : (emission.place offset).operation? table = some operation)
    (hpops : operation.pops ≤ depth) (hslot : operation.slot? = none)
    (hnext : operation.successors (offset + emission.size) = [offset + emission.size])
    (hsafe : unit.Safe table (offset + emission.size) (depth - operation.pops + operation.pushes)) :
    unit.Safe table offset depth :=
  hcode.safe hresolved hpops (by rw [hslot]; rintro _ ⟨⟩) hnext hsafe

/-- Pushing undefined is safe when what follows is. -/
theorem safe_undefined {line : UInt32} (hcode : unit.HasAt offset (Lowering.undefinedAt line))
    (hundefined : table.entries[0]? = some .undefined)
    (hsafe : unit.Safe table (offset + 2) (depth + 1)) : unit.Safe table offset depth :=
  hcode.safe_plain (Emission.operation?_constant (ConstantTable.value?_undefined [] hundefined))
    (Nat.zero_le _) rfl rfl hsafe

/-- A jump is safe when its target is. -/
theorem safe_goto {target : Nat} (hcode : unit.HasAt offset (emission :: rest))
    (hresolved : (emission.place offset).operation? table = some (.goto target)) (hforward : offset < target)
    (hsafe : unit.Safe table target depth) : unit.Safe table offset depth := by
  refine .step (hcode.operationAt hresolved) (Nat.zero_le _) (by rintro _ ⟨⟩) ?_ ?_ <;> intro read hread <;>
    rw [Operation.successors, List.mem_singleton] at hread <;> subst hread
  · exact hforward
  · exact hsafe

/-- A conditional jump is safe when its target and the next operation are. -/
theorem safe_jumpIfFalse {target : Nat} (hcode : unit.HasAt offset (emission :: rest))
    (hresolved : (emission.place offset).operation? table = some (.jumpIfFalse target))
    (hforward : offset + emission.size ≤ target)
    (hnext : unit.Safe table (offset + emission.size) depth) (hsafe : unit.Safe table target depth) :
    unit.Safe table offset (depth + 1) := by
  have hsize : 0 < emission.size := by
    rw [← emission.size_place offset]
    exact Instruction.size_pos _
  refine .step (hcode.operationAt hresolved) (Nat.le_add_left _ _) (by rintro _ ⟨⟩) ?_ ?_ <;>
    intro read hread <;>
    simp only [Operation.successors, List.mem_cons, List.not_mem_nil, or_false] at hread <;>
    rcases hread with rfl | rfl
  · omega
  · omega
  · exact hsafe
  · exact hnext

/-- Nothing follows a return. -/
theorem safe_return {line : UInt32} (hcode : unit.HasAt offset (.plain .ret line :: rest)) :
    unit.Safe table offset (depth + 1) := by
  refine .step (hcode.operationAt rfl) (Nat.le_add_left _ _) (by rintro _ ⟨⟩) ?_ ?_
  · rintro _ ⟨⟩
  · rintro _ ⟨⟩

end CodeUnit.HasAt

namespace Lowered

variable {table : ConstantTable} {slots : SlotTable} {first : Nat} {part : Part} {code : Fragment}

/-- Every value takes code of its own. -/
theorem valueCount_le (hlowered : Lowered table slots first part code) :
    part.valueCount ≤ Fragment.size code := by
  induction hlowered with
  | value _ ih =>
    simp only [Part.valueCount, Lowering.valueOf] at ih ⊢
    split <;> simp_all [Lowering.undefinedAt, Fragment.size, Emission.size, Instruction.size,
      Instruction.opcode, Opcode.size, Opcode.takesOperand]
  | statement => exact Nat.zero_le _
  | values _ _ ihNode ihRest | fields _ _ ihNode ihRest =>
    simp only [Part.valueCount, List.length_cons, Fragment.size_append] at ihNode ihRest ⊢
    omega
  | noValues | noStatements | noFields | statements => exact Nat.zero_le _
  | _ =>
    simp [Part.valueCount, Node.isStatement, Fragment.size, Emission.size, Instruction.size,
      Instruction.opcode, Opcode.size, Opcode.takesOperand] <;> omega

/-- The number of arguments fits into a word, since each of them has code of its own. -/
theorem toNat_length {nodes : List Node} {unit : CodeUnit} {offset : Nat}
    (hlowered : Lowered table slots first (.values nodes) code) (hcode : unit.HasAt offset code)
    (hsize : unit.code.size < 4294967296) : (UInt32.ofNat nodes.length).toNat = nodes.length := by
  have hvalues : nodes.length ≤ Fragment.size code := hlowered.valueCount_le
  have hend := hcode.le_size
  have hsmall : nodes.length < 4294967296 := by omega
  exact UInt32.toNat_ofNat_of_lt' hsmall

/-- Where the code of a part stands, it can be run safely when what follows can be. -/
theorem safe {unit : CodeUnit} (hlowered : Lowered table slots first part code)
    (hundefined : table.entries[0]? = some .undefined) (hslots : unit.slotCount = slots.size)
    (hsize : unit.code.size < 4294967296) {offset depth : Nat} (hcode : unit.HasAt offset code)
    (hsafe : unit.Safe table (offset + Fragment.size code) (depth + part.valueCount)) :
    unit.Safe table offset depth := by
  have hinside : ∀ {name : String} {slot : Nat}, slots.slotOf? name = some slot →
      (UInt32.ofNat slot).toNat < unit.slotCount := by
    intro name slot hslot
    rw [hslots, UInt32.toNat_ofNat']
    exact Nat.lt_of_le_of_lt (Nat.mod_le _ _) (SlotTable.slotOf?_lt hslot)
  have hnumber : ∀ {number : Nat}, number ≤ unit.code.size → (UInt32.ofNat number).toNat = number :=
    fun hsmall ↦ UInt32.toNat_ofNat_of_lt' (Nat.lt_of_le_of_lt hsmall hsize)
  induction hlowered generalizing offset depth with
  | block _ ih => exact ih hcode hsafe
  | @literal first value line word hword =>
    exact hcode.safe_plain (Emission.operation?_constant hword) (Nat.zero_le _) rfl rfl hsafe
  | localAccess hslot =>
    refine hcode.safe rfl (Nat.zero_le _) (fun slot hmem ↦ ?_) rfl hsafe
    obtain rfl := Option.some.inj hmem
    exact hinside hslot
  | @globalAccess first name line word hslot hword =>
    exact hcode.safe_plain (Emission.operation?_lookup hword) (Nat.zero_le _) rfl rfl hsafe
  | assignment _ hslot ih =>
    obtain ⟨hvalueCode, hstore⟩ := hcode.append
    rw [Fragment.size_append, ← Nat.add_assoc] at hsafe
    refine ih hvalueCode (hstore.safe rfl (Nat.le_add_left _ _) (fun slot hmem ↦ ?_) rfl hsafe)
    obtain rfl := Option.some.inj hmem
    exact hinside hslot
  | @anonymous first parameters body line word routine hword =>
    have hvalue : table.value? [] word = some (.function (.compiled routine)) :=
      ConstantTable.value?_of_constant? hword
    exact hcode.safe_plain (Emission.operation?_constant hvalue) (Nat.zero_le _) rfl rfl hsafe
  | @named first name parameters body line word nameWord routine hword hidentity hline hname =>
    have hvalue : table.value? [] word = some (.function (.compiled routine)) :=
      ConstantTable.value?_of_constant? hword
    refine hcode.safe_plain (Emission.operation?_constant hvalue) (Nat.zero_le _) rfl rfl ?_
    refine hcode.cons.2.safe_plain rfl (Nat.le_add_left _ _) rfl rfl ?_
    exact hcode.cons.2.cons.2.safe_plain (Emission.operation?_register hname) (Nat.le_add_left _ _)
      rfl rfl hsafe
  | @call first callee arguments line calleeCode argumentCode _ harguments ihCallee ihArguments =>
    obtain ⟨hfront, hcall⟩ := hcode.append
    obtain ⟨hfront, hargumentCode⟩ := hfront.append
    obtain ⟨hcalleeCode, hundefinedCode⟩ := hfront.append
    have hcount := harguments.toNat_length hargumentCode hsize
    simp only [Fragment.size_append, ← Nat.add_assoc] at hsafe hcall hargumentCode hundefinedCode
    refine ihCallee hcalleeCode (hundefinedCode.safe_undefined hundefined (ihArguments hargumentCode ?_))
    refine hcall.safe_plain (Emission.operation?_call hcount) ?_ rfl rfl (hsafe.congr rfl ?_)
    · simp only [Operation.pops, Part.valueCount]
      omega
    · simp only [Operation.pops, Operation.pushes, Part.valueCount, Node.isStatement,
        Bool.false_eq_true, if_false]
      omega
  | @methodCall first receiver name arguments line receiverCode argumentCode word _ hword harguments
      ihReceiver ihArguments =>
    obtain ⟨hfront, hcall⟩ := hcode.append
    obtain ⟨hfront, hargumentCode⟩ := hfront.append
    obtain ⟨hreceiverCode, hmethod⟩ := hfront.append
    have hcount := harguments.toNat_length hargumentCode hsize
    simp only [Fragment.size_append, ← Nat.add_assoc] at hsafe hcall hargumentCode hmethod
    refine ihReceiver hreceiverCode ?_
    refine hmethod.safe_plain rfl (Nat.le_add_left _ _) rfl rfl ?_
    refine hmethod.cons.2.safe_plain (Emission.operation?_get hword) (Nat.le_add_left _ _) rfl rfl ?_
    refine hmethod.cons.2.cons.2.safe_plain rfl (Nat.le_add_left _ _) rfl rfl ?_
    refine ihArguments hargumentCode ?_
    refine hcall.safe_plain (Emission.operation?_call hcount) ?_ rfl rfl (hsafe.congr rfl ?_)
    · simp only [Operation.pops, Operation.pushes, Part.valueCount]
      omega
    · simp only [Operation.pops, Operation.pushes, Part.valueCount, Node.isStatement,
        Bool.false_eq_true, if_false]
      omega
  | ret _ ih =>
    obtain ⟨hvalueCode, hret⟩ := hcode.append
    exact ih hvalueCode hret.safe_return
  | @conditional first condition thenBlock elseBlock line conditionCode thenCode elseCode _ _ _
      ihCondition ihThen ihElse =>
    obtain ⟨hconditionCode, hbranch, hthenCode, hskip, helseCode⟩ := hcode.branch
    rw [Fragment.size_branch] at hsafe
    obtain ⟨start, hstart⟩ : ∃ start : Nat, offset + Fragment.size conditionCode = start := ⟨_, rfl⟩
    rw [hstart] at hsafe hskip hthenCode helseCode hbranch
    have hend : start + 2 + Fragment.size thenCode + 2 + Fragment.size elseCode ≤ unit.code.size :=
      helseCode.le_size
    have helse : unit.Safe table (start + 2 + Fragment.size thenCode + 2) depth := ihElse helseCode hsafe
    have hgoto : unit.Safe table (start + 2 + Fragment.size thenCode) depth :=
      hskip.safe_goto (congrArg (fun target ↦ some (Operation.goto target)) (hnumber hend)) (by omega) hsafe
    have hthen : unit.Safe table (start + 2) depth := ihThen hthenCode hgoto
    have htarget : start + 2 + (Fragment.size thenCode + 2) ≤ unit.code.size := by omega
    refine ihCondition hconditionCode ?_
    rw [hstart]
    exact hbranch.safe_jumpIfFalse
      (congrArg (fun target ↦ some (Operation.jumpIfFalse target)) (hnumber htarget))
      (Nat.le_add_right _ _) hthen (helse.congr (by omega) rfl)
  | @object first fields line code word _ hword ih =>
    obtain ⟨hfieldCode, hnew⟩ := hcode.append
    rw [Fragment.size_append, ← Nat.add_assoc] at hsafe
    refine ih hfieldCode (hnew.safe_plain (Emission.operation?_new hword) ?_ rfl rfl (hsafe.congr rfl ?_))
    · simp only [Operation.pops, Class.fieldCount, List.length_map, Part.valueCount]
      omega
    · simp only [Operation.pops, Operation.pushes, Class.fieldCount, List.length_map, Part.valueCount,
        Node.isStatement, Bool.false_eq_true, if_false]
      omega
  | @fieldAccess first receiver name line code word _ hword ih =>
    obtain ⟨hreceiverCode, hget⟩ := hcode.append
    rw [Fragment.size_append, ← Nat.add_assoc] at hsafe
    exact ih hreceiverCode (hget.safe_plain (Emission.operation?_get hword)
      (Nat.le_add_left _ _) rfl rfl hsafe)
  | @fieldAssignment first receiver name value line receiverCode valueCode word _ _ hword ihReceiver
      ihValue =>
    obtain ⟨hfront, hput⟩ := hcode.append
    obtain ⟨hreceiverCode, hvalueCode⟩ := hfront.append
    simp only [Fragment.size_append, ← Nat.add_assoc] at hsafe hput
    exact ihReceiver hreceiverCode (ihValue hvalueCode (hput.safe_plain (Emission.operation?_put hword)
      (Nat.le_add_left _ _) rfl rfl hsafe))
  | @value first node code _ ih =>
    unfold Lowering.valueOf at hcode hsafe
    split_ifs at hcode hsafe with hstatement
    · obtain ⟨hnodeCode, hundefinedCode⟩ := hcode.append
      rw [Fragment.size_append, ← Nat.add_assoc] at hsafe
      refine ih hnodeCode (hundefinedCode.safe_undefined hundefined (hsafe.congr rfl ?_))
      simp only [Part.valueCount, if_pos hstatement]
    · refine ih hcode (hsafe.congr rfl ?_)
      simp only [Part.valueCount, if_neg hstatement]
  | @statement first node code _ ih =>
    unfold Lowering.statementOf at hcode hsafe
    split_ifs at hcode hsafe with hstatement
    · refine ih hcode (hsafe.congr rfl ?_)
      simp only [Part.valueCount, if_pos hstatement]
    · obtain ⟨hnodeCode, hpop⟩ := hcode.append
      rw [Fragment.size_append, ← Nat.add_assoc] at hsafe
      have hcount : (Part.node node).valueCount = 1 := if_neg hstatement
      refine ih hnodeCode (hpop.safe_plain rfl ?_ rfl rfl (hsafe.congr rfl ?_))
      · rw [hcount]
        exact Nat.le_add_left _ _
      · rw [hcount]
        rfl
  | noValues | noStatements | noFields => exact hsafe
  | @values first node rest code restCode _ _ ihNode ihRest =>
    obtain ⟨hnodeCode, hrestCode⟩ := hcode.append
    rw [Fragment.size_append, ← Nat.add_assoc] at hsafe
    refine ihNode hnodeCode (ihRest hrestCode (hsafe.congr rfl ?_))
    simp only [Part.valueCount, List.length_cons]
    omega
  | @statements first node rest code restCode _ _ ihNode ihRest =>
    obtain ⟨hnodeCode, hrestCode⟩ := hcode.append
    rw [Fragment.size_append, ← Nat.add_assoc] at hsafe
    exact ihNode hnodeCode (ihRest hrestCode hsafe)
  | @fields first field rest code restCode _ _ ihNode ihRest =>
    obtain ⟨hnodeCode, hrestCode⟩ := hcode.append
    rw [Fragment.size_append, ← Nat.add_assoc] at hsafe
    refine ihNode hnodeCode (ihRest hrestCode (hsafe.congr rfl ?_))
    simp only [Part.valueCount, List.length_cons]
    omega

end Lowered

/-- The code of a function can be run, as long as its offsets fit into a word. -/
theorem Closure.Compiled.verified {closure : Closure} {table : ConstantTable} {routine : Routine}
    (hcompiled : closure.Compiled table routine) (hundefined : table.entries[0]? = some .undefined)
    (hsize : routine.unit.code.size < 4294967295) : routine.unit.Verified table := by
  obtain ⟨strict, line, last, slots, code, hslots, hlowered, hunit⟩ := hcompiled.unit
  obtain ⟨added, hnames, -, -⟩ := SlotTable.exists_names_of_allocate hslots
  have hcode : routine.unit.HasAt 0 (code ++ Lowering.undefinedAt last ++ [.plain .ret last]) := by
    rw [hunit]
    exact Fragment.hasAt_assemble _ _ _
  have hslotCount : routine.unit.slotCount = slots.size := by
    rw [hunit]
    rfl
  have hparameterCount : routine.unit.parameterCount = closure.parameters.length + 1 := by
    rw [hunit]
    rfl
  obtain ⟨hfront, hret⟩ := hcode.append
  obtain ⟨hbody, hundefinedCode⟩ := hfront.append
  refine ⟨?_, ?_, hsize, ?_⟩
  · rw [hparameterCount, hslotCount, SlotTable.size, hnames]
    simp only [List.length_append, List.length_cons]
    omega
  · rw [hparameterCount]
    exact Nat.succ_pos _
  · refine hlowered.safe hundefined hslotCount (by omega) hbody (hundefinedCode.safe_undefined hundefined ?_)
    rw [Fragment.size_append, ← Nat.add_assoc] at hret
    exact hret.safe_return

end ScriptMachine
