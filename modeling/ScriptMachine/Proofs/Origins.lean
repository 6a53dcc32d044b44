import ScriptMachine.Proofs.LineTable

/-!
# Which node an instruction comes from

`Node.sources` lists the instructions that the compiler emits for a node, in order: the node that emits each of them,
and its opcode. The undefined that stands for the value of a statement belongs to the statement, and the drop of a
value that is not wanted belongs to the expression. Behind the instructions of a body come the two of its ending, which
belong to no node; the line of these is that of the last node, or of the function where the body is empty.

The emissions of a part are what its sources say (`Lowered.comesFrom`), and their jumps lead from one instruction to
another (`Lowered.rounded`).
-/

set_option autoImplicit false
set_option relaxedAutoImplicit false

namespace ScriptMachine

/-! ### Sources -/

/-- What emits an instruction of a function: a node of its body, or the ending of the body. -/
inductive Origin where
  | node (node : Node)
  | ending

/-- The source line of an origin, given that of the ending. -/
def Origin.line (ending : UInt32) : Origin → UInt32
  | .node tree => tree.line
  | .ending => ending

/-- An instruction of a function: what emits it, and the opcodes it can have. -/
structure Source where
  origin : Origin
  opcodes : List Opcode

/-- The instruction with an opcode that a node emits. -/
def Source.of (node : Node) (opcode : Opcode) : Source :=
  ⟨.node node, [opcode]⟩

namespace Node

/-- The instructions of a node where exactly one value is wanted: a statement adds undefined itself. -/
def valueSources (node : Node) (sources : List Source) : List Source :=
  if node.isStatement then sources ++ [.of node .constant] else sources

/-- The instructions of a node where no value is wanted: an expression drops its value itself. -/
def statementSources (node : Node) (sources : List Source) : List Source :=
  if node.isStatement then sources else sources ++ [.of node .pop]

end Node

mutual

/-- The instructions that the compiler emits for a node. -/
def Node.sources : Node → List Source
  | .block body => statementsSources body.nodes
  | .literal value line => [.of (.literal value line) .constant]
  | .call callee arguments line =>
    callee.valueSources callee.sources ++ [.of (.call callee arguments line) .constant] ++ valuesSources arguments ++
      [.of (.call callee arguments line) .call]
  | .access name line => [⟨.node (.access name line), [.load, .lookup]⟩]
  | .assignment name value declares line =>
    value.valueSources value.sources ++ [.of (.assignment name value declares line) .store]
  | .function name parameters body line =>
    .of (.function name parameters body line) .constant ::
      if name.isSome then
        [.of (.function name parameters body line) .duplicate, .of (.function name parameters body line) .register]
      else []
  | .ret value line => value.valueSources value.sources ++ [.of (.ret value line) .ret]
  | .conditional condition thenBlock elseBlock line =>
    condition.valueSources condition.sources ++
      [.of (.conditional condition thenBlock elseBlock line) .jumpIfFalse] ++ statementsSources thenBlock.nodes ++
      [.of (.conditional condition thenBlock elseBlock line) .goto] ++ statementsSources elseBlock.nodes
  | .object fields line => fieldsSources fields ++ [.of (.object fields line) .new]
  | .fieldAccess receiver name line =>
    receiver.valueSources receiver.sources ++ [.of (.fieldAccess receiver name line) .get]
  | .fieldAssignment receiver name value line =>
    receiver.valueSources receiver.sources ++ value.valueSources value.sources ++
      [.of (.fieldAssignment receiver name value line) .put]
  | .methodCall receiver name arguments line =>
    receiver.valueSources receiver.sources ++
      [.of (.methodCall receiver name arguments line) .duplicate, .of (.methodCall receiver name arguments line) .get,
        .of (.methodCall receiver name arguments line) .swap] ++ valuesSources arguments ++
      [.of (.methodCall receiver name arguments line) .call]

/-- The instructions for nodes whose values are left on the stack. -/
def valuesSources : List Node → List Source
  | [] => []
  | node :: rest => node.valueSources node.sources ++ valuesSources rest

/-- The instructions for nodes whose values are dropped. -/
def statementsSources : List Node → List Source
  | [] => []
  | node :: rest => node.statementSources node.sources ++ statementsSources rest

/-- The instructions for the initial values of fields. -/
def fieldsSources : List (Field Node) → List Source
  | [] => []
  | field :: rest => field.value.valueSources field.value.sources ++ fieldsSources rest

end

/-- The instructions of a part of a program. -/
def Part.sources : Part → List Source
  | .node tree => tree.sources
  | .value tree => tree.valueSources tree.sources
  | .statement tree => tree.statementSources tree.sources
  | .values trees => valuesSources trees
  | .statements trees => statementsSources trees
  | .fields members => fieldsSources members

/-- The instructions of a body, its ending included. -/
def Block.sources (body : Block Node) : List Source :=
  statementsSources body.nodes ++ [⟨.ending, [.constant]⟩, ⟨.ending, [.ret]⟩]

/-! ### Emissions -/

/-- The opcode of an emission. -/
def Emission.opcode : Emission → Opcode
  | .plain instruction _ => instruction.opcode
  | .skip _ _ => .goto
  | .skipIfFalse _ _ => .jumpIfFalse

/-- An emission has its opcode wherever it stands. -/
theorem Emission.opcode_place (emission : Emission) (offset : Nat) :
    (emission.place offset).opcode = emission.opcode := by
  cases emission <;> rfl

/-- An emission has the line of a source and one of its opcodes. -/
structure Source.Emits (ending : UInt32) (source : Source) (emission : Emission) : Prop where
  line : emission.line = source.origin.line ending
  opcode : emission.opcode ∈ source.opcodes

/-- A node emits an instruction on its own line. -/
theorem Source.emits_of {ending : UInt32} {node : Node} {emission : Emission} (hline : emission.line = node.line)
    {opcode : Opcode} (hopcode : emission.opcode = opcode) : (Source.of node opcode).Emits ending emission :=
  ⟨hline, List.mem_singleton.mpr hopcode⟩

/-- A fragment has one emission for every source. -/
def Fragment.ComesFrom (ending : UInt32) (code : Fragment) (sources : List Source) : Prop :=
  List.Forall₂ (Source.Emits ending) sources code

namespace Fragment.ComesFrom

variable {ending : UInt32} {first second code : Fragment} {sources more : List Source}

theorem append (hfirst : first.ComesFrom ending sources) (hsecond : second.ComesFrom ending more) :
    (first ++ second).ComesFrom ending (sources ++ more) :=
  List.rel_append hfirst hsecond

/-- A node emits a single instruction on its own line. -/
theorem single {node : Node} {emission : Emission} (hline : emission.line = node.line) {opcode : Opcode}
    (hopcode : emission.opcode = opcode) : ComesFrom ending [emission] [.of node opcode] :=
  .cons (Source.emits_of hline hopcode) .nil

/-- The undefined for a statement is its own. -/
theorem value {node : Node} (hcode : code.ComesFrom ending sources) :
    (Lowering.valueOf node code).ComesFrom ending (node.valueSources sources) := by
  unfold Lowering.valueOf Node.valueSources
  split_ifs
  · exact hcode.append (single rfl rfl)
  · exact hcode

/-- The drop of the value of an expression is its own. -/
theorem statement {node : Node} (hcode : code.ComesFrom ending sources) :
    (Lowering.statementOf node code).ComesFrom ending (node.statementSources sources) := by
  unfold Lowering.statementOf Node.statementSources
  split_ifs
  · exact hcode
  · exact hcode.append (single rfl rfl)

end Fragment.ComesFrom

open Fragment.ComesFrom in
/-- The emissions of a part are what its sources say. -/
theorem Lowered.comesFrom {table : ConstantTable} {slots : SlotTable} {first : Nat} {part : Part} {code : Fragment}
    (hlowered : Lowered table slots first part code) (ending : UInt32) : code.ComesFrom ending part.sources := by
  induction hlowered with
  | block _ ih =>
    rw [Part.sources, Node.sources]
    exact ih
  | literal =>
    rw [Part.sources, Node.sources]
    exact single rfl rfl
  | localAccess =>
    rw [Part.sources, Node.sources]
    exact .cons ⟨rfl, List.mem_cons_self⟩ .nil
  | globalAccess =>
    rw [Part.sources, Node.sources]
    exact .cons ⟨rfl, List.mem_cons_of_mem _ List.mem_cons_self⟩ .nil
  | assignment _ _ ih | ret _ ih | fieldAccess _ _ ih =>
    rw [Part.sources, Node.sources]
    exact append ih (single rfl rfl)
  | anonymous =>
    rw [Part.sources, Node.sources]
    exact single rfl rfl
  | named =>
    rw [Part.sources, Node.sources]
    exact .cons (Source.emits_of rfl rfl) (.cons (Source.emits_of rfl rfl) (single rfl rfl))
  | call _ _ ihCallee ihArguments =>
    rw [Part.sources, Node.sources]
    exact append (append (append ihCallee (single rfl rfl)) ihArguments) (single rfl rfl)
  | methodCall _ _ _ ihReceiver ihArguments =>
    rw [Part.sources, Node.sources]
    refine append (append (append ihReceiver ?_) ihArguments) (single rfl rfl)
    exact .cons (Source.emits_of rfl rfl) (.cons (Source.emits_of rfl rfl) (single rfl rfl))
  | conditional _ _ _ ihCondition ihThen ihElse =>
    rw [Part.sources, Node.sources]
    exact append (append (append (append ihCondition (single rfl rfl)) ihThen) (single rfl rfl)) ihElse
  | object _ _ ih =>
    rw [Part.sources, Node.sources]
    exact append ih (single rfl rfl)
  | fieldAssignment _ _ _ ihReceiver ihValue =>
    rw [Part.sources, Node.sources]
    exact append (append ihReceiver ihValue) (single rfl rfl)
  | value _ ih => exact Fragment.ComesFrom.value ih
  | statement _ ih => exact Fragment.ComesFrom.statement ih
  | noValues | noStatements | noFields => exact .nil
  | values _ _ ihNode ihRest => exact append ihNode ihRest
  | statements _ _ ihNode ihRest => exact append ihNode ihRest
  | fields _ _ ihNode ihRest => exact append ihNode ihRest

/-! ### Jumps -/

/-- The target of a jump. -/
def Instruction.target? : Instruction → Option UInt32
  | .goto target => some target
  | .jumpIfFalse target => some target
  | _ => none

/-- Every jump of a fragment skips whole emissions behind it. -/
inductive Fragment.Rounded : Fragment → Prop where
  | nil : Rounded []
  | cons {emission : Emission} {code : Fragment}
      (hskips : ∀ (offset : Nat) (target : UInt32), (emission.place offset).target? = some target →
        ∃ skipped rest : Fragment, code = skipped ++ rest ∧
          target = UInt32.ofNat (offset + emission.size + size skipped))
      (hrest : Rounded code) : Rounded (emission :: code)

namespace Fragment.Rounded

variable {first second code : Fragment}

theorem append (hfirst : first.Rounded) (hsecond : second.Rounded) : (first ++ second).Rounded := by
  induction hfirst with
  | nil => exact hsecond
  | cons hskips _ ih =>
    refine .cons (fun offset target htarget ↦ ?_) ih
    obtain ⟨skipped, rest, rfl, hsize⟩ := hskips offset target htarget
    exact ⟨skipped, rest ++ second, List.append_assoc _ _ _, hsize⟩

/-- An instruction that does not jump skips nothing. -/
theorem plain (hcode : code.Rounded) {instruction : Instruction} (hnone : instruction.target? = none)
    (line : UInt32) : Rounded (.plain instruction line :: code) := by
  refine .cons (fun offset target htarget ↦ ?_) hcode
  rw [Emission.place, hnone] at htarget
  cases htarget

theorem single {instruction : Instruction} (hnone : instruction.target? = none) (line : UInt32) :
    Rounded [.plain instruction line] :=
  nil.plain hnone line

/-- The jump over the first arm of a conditional skips the jump behind it as well, which skips the second arm. -/
theorem branch {condition thenCode elseCode : Fragment} (hcondition : condition.Rounded) (hthen : thenCode.Rounded)
    (helse : elseCode.Rounded) (line : UInt32) : (Lowering.branch condition thenCode elseCode line).Rounded := by
  have hsecond : Rounded (.skip elseCode.size line :: elseCode) := by
    refine .cons (fun offset target htarget ↦ ⟨elseCode, [], (List.append_nil _).symm, ?_⟩) helse
    exact (Option.some.inj htarget).symm
  have hfirst : Rounded
      (.skipIfFalse (thenCode.size + 2) line :: (thenCode ++ .skip elseCode.size line :: elseCode)) := by
    refine .cons (fun offset target htarget ↦ ⟨thenCode ++ [.skip elseCode.size line], elseCode, ?_, ?_⟩)
      (hthen.append hsecond)
    · rw [List.append_assoc]
      rfl
    · rw [size_append]
      exact (Option.some.inj htarget).symm
  have hjoined := hcondition.append hfirst
  unfold Lowering.branch
  simpa only [List.append_assoc, List.cons_append, List.nil_append] using hjoined

theorem value (hcode : code.Rounded) (node : Node) : (Lowering.valueOf node code).Rounded := by
  unfold Lowering.valueOf
  split_ifs
  · exact hcode.append (single rfl _)
  · exact hcode

theorem statement (hcode : code.Rounded) (node : Node) : (Lowering.statementOf node code).Rounded := by
  unfold Lowering.statementOf
  split_ifs
  · exact hcode
  · exact hcode.append (single rfl _)

/-- What an emission skips lies behind it. -/
theorem exists_skipped {before after : Fragment} {emission : Emission}
    (hcode : Rounded (before ++ emission :: after)) {offset : Nat} {target : UInt32}
    (htarget : (emission.place offset).target? = some target) :
    ∃ skipped rest : Fragment, after = skipped ++ rest ∧
      target = UInt32.ofNat (offset + emission.size + size skipped) := by
  induction before with
  | nil =>
    cases hcode with
    | cons hskips _ => exact hskips offset target htarget
  | cons _ _ ih =>
    cases hcode with
    | cons _ hrest => exact ih hrest

end Fragment.Rounded

open Fragment.Rounded in
/-- The jumps of a part skip whole emissions. -/
theorem Lowered.rounded {table : ConstantTable} {slots : SlotTable} {first : Nat} {part : Part} {code : Fragment}
    (hlowered : Lowered table slots first part code) : code.Rounded := by
  induction hlowered with
  | block _ ih => exact ih
  | literal | localAccess | globalAccess | anonymous => exact single rfl _
  | assignment _ _ ih | ret _ ih | fieldAccess _ _ ih | object _ _ ih => exact ih.append (single rfl _)
  | named => exact plain (plain (single rfl _) rfl _) rfl _
  | call _ _ ihCallee ihArguments =>
    exact ((ihCallee.append (single rfl _)).append ihArguments).append (single rfl _)
  | methodCall _ _ _ ihReceiver ihArguments =>
    refine ((ihReceiver.append ?_).append ihArguments).append (single rfl _)
    exact plain (plain (single rfl _) rfl _) rfl _
  | conditional _ _ _ ihCondition ihThen ihElse => exact branch ihCondition ihThen ihElse _
  | fieldAssignment _ _ _ ihReceiver ihValue => exact (ihReceiver.append ihValue).append (single rfl _)
  | value _ ih => exact ih.value _
  | statement _ ih => exact ih.statement _
  | noValues | noStatements | noFields => exact .nil
  | values _ _ ihNode ihRest | statements _ _ ihNode ihRest | fields _ _ ihNode ihRest => exact ihNode.append ihRest

/-! ### Functions -/

/-- Every jump of a code unit leads to the start of an instruction. -/
def CodeUnit.JumpsToStarts (unit : CodeUnit) : Prop :=
  ∀ (number offset : Nat) (instruction : Instruction) (target : UInt32), unit.startOf? number = some offset →
    unit.instructionAt offset = .ok instruction → instruction.target? = some target →
      ∃ other : Nat, unit.startOf? other = some target.toNat

namespace Fragment

/-- Assembled code whose jumps skip whole emissions jumps to the starts of instructions. -/
theorem Rounded.jumpsToStarts {code : Fragment} (hcode : code.Rounded) {parameterCount slotCount : Nat}
    (hsize : size code < 4294967296) : (assemble code parameterCount slotCount).JumpsToStarts := by
  intro number offset instruction target hstart hinstruction htarget
  obtain ⟨before, emission, after, rfl, -, rfl, rfl⟩ := exists_split hstart hinstruction
  obtain ⟨skipped, rest, rfl, rfl⟩ := hcode.exists_skipped htarget
  have hstands := hasAt_assemble (before ++ emission :: (skipped ++ rest)) parameterCount slotCount
  have hfound := @CodeUnit.HasAt.startFrom _ _ (before ++ emission :: skipped) rest
    (by rw [List.append_assoc, List.cons_append]; exact hstands)
  refine ⟨_, hfound.trans (congrArg some ?_)⟩
  simp only [size_append, size] at hsize ⊢
  rw [UInt32.toNat_ofNat_of_lt' (by show _ < 4294967296; omega)]
  omega

/-- An instruction of assembled code has the line and an opcode of the source with its number. -/
theorem ComesFrom.exists_source {ending : UInt32} {code : Fragment} {sources : List Source}
    (hcode : code.ComesFrom ending sources) {parameterCount slotCount : Nat} (hsize : size code ≤ 4294967296)
    {number offset : Nat} {instruction : Instruction}
    (hstart : (assemble code parameterCount slotCount).startOf? number = some offset)
    (hinstruction : (assemble code parameterCount slotCount).instructionAt offset = .ok instruction) :
    ∃ source : Source, sources[number]? = some source ∧ instruction.opcode ∈ source.opcodes ∧
      (assemble code parameterCount slotCount).lineAt offset = source.origin.line ending := by
  obtain ⟨before, emission, after, rfl, rfl, rfl, rfl⟩ := exists_split hstart hinstruction
  obtain ⟨earlier, source, later, rfl, hearlier, hemits, -⟩ := exists_split_of_forall₂ hcode
  refine ⟨source, ?_, ?_, ?_⟩
  · rw [← hearlier.length_eq, List.getElem?_append_right (Nat.le_refl _), Nat.sub_self]
    rfl
  · rw [Emission.opcode_place]
    exact hemits.opcode
  · rw [lineAt_assemble hsize]
    exact hemits.line

end Fragment

namespace Closure.Compiled

variable {closure : Closure} {table : ConstantTable} {routine : Routine}

/-- The code of a function are its sources, and its jumps lead to the starts of instructions. -/
theorem exists_assembled (hcompiled : closure.Compiled table routine) {ending : UInt32}
    (hending : routine.unit.lastLine? = some ending) :
    ∃ (code : Fragment) (slotCount : Nat), code.ComesFrom ending closure.body.sources ∧ code.Rounded ∧
      routine.unit = code.assemble (closure.parameters.length + 1) slotCount := by
  obtain ⟨strict, line, last, slots, code, -, hlowered, hunit⟩ := hcompiled.unit
  obtain rfl : last = ending := by
    rw [hunit, Fragment.lastLine?_assemble] at hending
    exact Option.some.inj hending
  refine ⟨_, _, ?_, ?_, hunit⟩
  · rw [List.append_assoc]
    exact (hlowered.comesFrom last).append
      (.cons ⟨rfl, List.mem_singleton_self _⟩ (.cons ⟨rfl, List.mem_singleton_self _⟩ .nil))
  · exact (hlowered.rounded.append (.single rfl last)).append (.single rfl last)

end Closure.Compiled

end ScriptMachine
