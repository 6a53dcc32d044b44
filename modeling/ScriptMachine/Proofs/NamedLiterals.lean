import Mathlib.Data.List.Infix
import ScriptMachine.Proofs.Definitions
import ScriptMachine.Proofs.Origins

/-!
# Where code binds names

Only the literal of a function with a name emits an instruction that binds a global. The instruction is the last of
three (`Definition.naming`): the first one puts the function of the literal on the stack, the second one copies it, and
the third one binds the name to the copy. `CodeUnit.Names` says of an offset that such a literal begins there, with the
constants that its words refer to.

`CodeUnit.NamesOnly` says that code binds names only there, from an offset on. No jump leads into the middle of a
literal, since jumps skip whole parts of a program; so this is an induction from the end of the code, as for safe code.
The code of a part has the shape `Fragment.Naming` (`Lowered.naming`), which leads from the end of the part to its
beginning (`Fragment.Naming.namesOnly`), and the code of a function binds names only where the literals in its body do
(`Closure.Compiled.namesOnly`).
-/

set_option autoImplicit false
set_option relaxedAutoImplicit false

namespace ScriptMachine

/-! ### Literals with a name -/

namespace Definition

/-- The literal of a function that has a name. -/
def literal (definition : Definition) : Node :=
  .function (some definition.name) definition.parameters definition.body definition.line

/-- The instructions of the literal of a function that has a name. -/
def naming (definition : Definition) : List Source :=
  [.of definition.literal .constant, .of definition.literal .duplicate, .of definition.literal .register]

end Definition

/-- A literal in the body of a function begins at an offset: its instructions are there, one behind the other, the first
one refers to the function of the literal and the last one to its name. -/
structure CodeUnit.Names (unit : CodeUnit) (table : ConstantTable) (around inner : Definition) (routine : Routine)
    (start : Nat) : Prop where
  enclosed : inner ∈ around.literals
  emitted : ∃ number : Nat, unit.startOf? number = some start ∧ inner.naming <+: around.body.sources.drop number
  constant : ∃ word : Word, unit.instructionAt start = .ok (.constant word) ∧
    table.constant? word = some (.function (.compiled routine))
  duplicate : unit.instructionAt (start + 2) = .ok .duplicate
  register : ∃ word : Word, unit.instructionAt (start + 3) = .ok (.register word) ∧
    table.text? word = some inner.name
  identity : routine.identity = inner.identity

/-- More constants leave the literals of a function where they are. -/
theorem CodeUnit.Names.mono {unit : CodeUnit} {table larger : ConstantTable} {around inner : Definition}
    {routine : Routine} {start : Nat} (hnames : unit.Names table around inner routine start)
    (hextends : table.Extends larger) : unit.Names larger around inner routine start := by
  obtain ⟨word, hconstant, hfunction⟩ := hnames.constant
  obtain ⟨nameWord, hregister, hname⟩ := hnames.register
  refine ⟨hnames.enclosed, hnames.emitted, ⟨word, hconstant, ?_⟩, hnames.duplicate, ⟨nameWord, hregister, ?_⟩,
    hnames.identity⟩
  · exact ConstantTable.constant?_mono hextends hfunction
  · rw [ConstantTable.text?_eq_some_iff] at hname ⊢
    exact ConstantTable.constant?_mono hextends hname

/-- From an offset on, the code of a function binds names only at the ends of literals in its body, and no jump leads
into one of them. -/
inductive CodeUnit.NamesOnly (unit : CodeUnit) (table : ConstantTable) (around : Definition) : Nat → Prop where
  | plain {offset : Nat} {instruction : Instruction} (hinstruction : unit.instructionAt offset = .ok instruction)
      (hregister : ∀ name : Word, instruction ≠ .register name)
      (hnext : instruction ≠ .ret → unit.NamesOnly table around (offset + instruction.size))
      (hjump : ∀ target : UInt32, instruction.target? = some target → unit.NamesOnly table around target.toNat) :
      unit.NamesOnly table around offset
  | literal {offset : Nat} {inner : Definition} {routine : Routine}
      (hnames : unit.Names table around inner routine offset)
      (hnext : unit.NamesOnly table around (offset + 5)) : unit.NamesOnly table around offset

/-! ### Fragments and their sources -/

/-- The code of some sources binds names only at the ends of literals among some definitions. -/
inductive Fragment.Naming (table : ConstantTable) (literals : List Definition) : List Source → Fragment → Prop where
  | nil : Naming table literals [] []
  | plain {instruction : Instruction} (source : Source) (line : UInt32)
      (hregister : ∀ name : Word, instruction ≠ .register name) (htarget : instruction.target? = none) :
      Naming table literals [source] [.plain instruction line]
  | literal {inner : Definition} {word nameWord : Word} {routine : Routine} (line : UInt32)
      (hmem : inner ∈ literals) (hword : table.constant? word = some (.function (.compiled routine)))
      (hidentity : routine.identity = inner.identity) (hname : table.text? nameWord = some inner.name) :
      Naming table literals inner.naming
        [.plain (.constant word) line, .plain .duplicate line, .plain (.register nameWord) line]
  | append {sources more : List Source} {first second : Fragment} (hfirst : Naming table literals sources first)
      (hsecond : Naming table literals more second) : Naming table literals (sources ++ more) (first ++ second)
  | branch {conditionSources thenSources elseSources : List Source} {condition thenCode elseCode : Fragment}
      (jump skip : Source) (line : UInt32) (hcondition : Naming table literals conditionSources condition)
      (hthen : Naming table literals thenSources thenCode) (helse : Naming table literals elseSources elseCode) :
      Naming table literals (conditionSources ++ [jump] ++ thenSources ++ [skip] ++ elseSources)
        (Lowering.branch condition thenCode elseCode line)

namespace Fragment.Naming

variable {table : ConstantTable} {literals : List Definition} {sources : List Source} {code : Fragment}

/-- There is one source for every emission. -/
theorem length_eq (hnaming : Naming table literals sources code) : sources.length = code.length := by
  induction hnaming with
  | nil | plain | literal => rfl
  | append _ _ ihFirst ihSecond => rw [List.length_append, List.length_append, ihFirst, ihSecond]
  | branch _ _ _ _ _ _ ihCondition ihThen ihElse =>
    simp only [Lowering.branch, List.length_append, List.length_cons, List.length_nil, ihCondition, ihThen, ihElse]

/-- The undefined for a statement binds no name. -/
theorem value (hnaming : Naming table literals sources code) (node : Node) :
    Naming table literals (node.valueSources sources) (Lowering.valueOf node code) := by
  unfold Lowering.valueOf Node.valueSources
  split_ifs
  · exact hnaming.append (.plain _ _ (by rintro _ ⟨⟩) rfl)
  · exact hnaming

/-- The drop of the value of an expression binds no name. -/
theorem statement (hnaming : Naming table literals sources code) (node : Node) :
    Naming table literals (node.statementSources sources) (Lowering.statementOf node code) := by
  unfold Lowering.statementOf Node.statementSources
  split_ifs
  · exact hnaming
  · exact hnaming.append (.plain _ _ (by rintro _ ⟨⟩) rfl)

end Fragment.Naming

/-! ### Parts of a program -/

/-- The function literals of a part of a program whose sites have the identities from the first one on. -/
def Part.definitions (first : Nat) : Part → List Definition
  | .node tree | .value tree | .statement tree => tree.definitions first
  | .values trees | .statements trees => definitionsOf first trees
  | .fields members => fieldDefinitions first members

open Fragment.Naming in
/-- The code of a part binds names only at the ends of literals of the part. -/
theorem Lowered.naming {table : ConstantTable} {slots : SlotTable} {first : Nat} {part : Part} {code : Fragment}
    (hlowered : Lowered table slots first part code) {literals : List Definition}
    (hliterals : part.definitions first ⊆ literals) : code.Naming table literals part.sources := by
  induction hlowered with
  | block _ ih =>
    rw [Part.definitions, Node.definitions] at hliterals
    rw [Part.sources, Node.sources]
    exact ih hliterals
  | literal | localAccess | globalAccess | anonymous =>
    rw [Part.sources, Node.sources]
    exact plain _ _ (by rintro _ ⟨⟩) rfl
  | assignment _ _ ih | ret _ ih | fieldAccess _ _ ih | object _ _ ih =>
    rw [Part.definitions, Node.definitions] at hliterals
    rw [Part.sources, Node.sources]
    exact append (ih hliterals) (plain _ _ (by rintro _ ⟨⟩) rfl)
  | @named first name parameters body line _ _ _ hword hidentity hline hname =>
    rw [Part.definitions, Node.definitions] at hliterals
    rw [Part.sources, Node.sources]
    have hmem : Definition.ofBody first name parameters body line ∈ literals :=
      hliterals (List.mem_append_right _ (List.mem_singleton_self _))
    exact Fragment.Naming.literal line hmem hword hidentity hname
  | call _ _ ihCallee ihArguments =>
    rw [Part.definitions, Node.definitions, List.append_subset] at hliterals
    rw [Part.sources, Node.sources]
    refine append (append (append (ihCallee hliterals.1) ?_) (ihArguments hliterals.2)) ?_
    all_goals exact plain _ _ (by rintro _ ⟨⟩) rfl
  | methodCall _ _ _ ihReceiver ihArguments =>
    rw [Part.definitions, Node.definitions, List.append_subset] at hliterals
    rw [Part.sources, Node.sources]
    refine append (append (append (ihReceiver hliterals.1) ?_) (ihArguments hliterals.2)) ?_
    · exact append (plain _ _ (by rintro _ ⟨⟩) rfl)
        (append (plain _ _ (by rintro _ ⟨⟩) rfl) (plain _ _ (by rintro _ ⟨⟩) rfl))
    · exact plain _ _ (by rintro _ ⟨⟩) rfl
  | conditional _ _ _ ihCondition ihThen ihElse =>
    rw [Part.definitions, Node.definitions, List.append_subset, List.append_subset] at hliterals
    rw [Part.sources, Node.sources]
    exact branch _ _ _ (ihCondition hliterals.1.1) (ihThen hliterals.1.2) (ihElse hliterals.2)
  | fieldAssignment _ _ _ ihReceiver ihValue =>
    rw [Part.definitions, Node.definitions, List.append_subset] at hliterals
    rw [Part.sources, Node.sources]
    exact append (append (ihReceiver hliterals.1) (ihValue hliterals.2)) (plain _ _ (by rintro _ ⟨⟩) rfl)
  | value _ ih => exact Fragment.Naming.value (ih hliterals) _
  | statement _ ih => exact Fragment.Naming.statement (ih hliterals) _
  | noValues | noStatements | noFields => exact .nil
  | values _ _ ihNode ihRest | statements _ _ ihNode ihRest =>
    rw [Part.definitions, definitionsOf, List.append_subset] at hliterals
    exact append (ihNode hliterals.1) (ihRest hliterals.2)
  | fields _ _ ihNode ihRest =>
    rw [Part.definitions, fieldDefinitions, List.append_subset] at hliterals
    exact append (ihNode hliterals.1) (ihRest hliterals.2)

/-! ### Code units -/

/-- A fragment stands at an offset of a code unit where the instruction with a number starts, and the sources from that
number on are its own. -/
structure CodeUnit.Places (unit : CodeUnit) (all : List Source) (number offset : Nat) (sources : List Source)
    (code : Fragment) : Prop where
  start : unit.startOf? number = some offset
  stands : unit.HasAt offset code
  sources : sources <+: all.drop number

section Units

variable {unit : CodeUnit} {all sources more : List Source} {number offset : Nat} {first second : Fragment}

/-- Joined fragments are placed one behind the other. -/
theorem CodeUnit.Places.append (hplaces : unit.Places all number offset (sources ++ more) (first ++ second))
    (hlength : sources.length = first.length) :
    unit.Places all number offset sources first ∧
      unit.Places all (number + first.length) (offset + Fragment.size first) more second := by
  obtain ⟨hfirst, hsecond⟩ := hplaces.stands.append
  refine ⟨⟨hplaces.start, hfirst, (List.prefix_append _ _).trans hplaces.sources⟩, ⟨?_, hsecond, ?_⟩⟩
  · have hstart := hplaces.start
    unfold startOf? at hstart ⊢
    rw [startFrom_add, hstart, Option.bind_some]
    exact hplaces.stands.startFrom
  · have hdropped := hplaces.sources.drop sources.length
    rwa [List.drop_left, List.drop_drop, hlength] at hdropped

/-- Where a fragment with its sources stands in the code of a function, the code binds names only at the ends of
literals when the code behind the fragment does. -/
theorem Fragment.Naming.namesOnly {table : ConstantTable} {around : Definition} {code : Fragment}
    (hnaming : code.Naming table around.literals sources)
    (hplaces : unit.Places around.body.sources number offset sources code) (hsize : unit.code.size < 4294967296)
    (hnext : unit.NamesOnly table around (offset + size code)) : unit.NamesOnly table around offset := by
  have hnumber : ∀ {number : Nat}, number ≤ unit.code.size → (UInt32.ofNat number).toNat = number :=
    fun hsmall ↦ UInt32.toNat_ofNat_of_lt' (Nat.lt_of_le_of_lt hsmall hsize)
  induction hnaming generalizing number offset with
  | nil => exact hnext
  | plain source line hregister htarget =>
    refine .plain hplaces.stands.cons.1 hregister (fun _ ↦ hnext) fun target hjump ↦ ?_
    cases htarget.symm.trans hjump
  | literal line hmem hword hidentity hname =>
    obtain ⟨hconstant, hrest⟩ := hplaces.stands.cons
    obtain ⟨hduplicate, hlast⟩ := hrest.cons
    exact .literal ⟨hmem, ⟨number, hplaces.start, hplaces.sources⟩, ⟨_, hconstant, hword⟩, hduplicate,
      ⟨_, hlast.cons.1, hname⟩, hidentity⟩ hnext
  | append hfirst _ ihFirst ihSecond =>
    obtain ⟨hfront, hback⟩ := hplaces.append hfirst.length_eq
    rw [size_append, ← Nat.add_assoc] at hnext
    exact ihFirst hfront (ihSecond hback hnext)
  | @branch conditionSources thenSources elseSources condition thenCode elseCode jump skip line hcondition hthen helse
      ihCondition ihThen ihElse =>
    obtain ⟨hfront, helsePlace⟩ := hplaces.append (by simp [hcondition.length_eq, hthen.length_eq])
    obtain ⟨hfront, hskip⟩ := hfront.append (by simp [hcondition.length_eq, hthen.length_eq])
    obtain ⟨hfront, hthenPlace⟩ := hfront.append (by simp [hcondition.length_eq])
    obtain ⟨hconditionPlace, hjump⟩ := hfront.append hcondition.length_eq
    simp only [Lowering.branch, size_append, ← Nat.add_assoc] at hnext hskip hthenPlace helsePlace
    refine ihCondition hconditionPlace ?_
    generalize offset + size condition = start at hnext hskip hthenPlace helsePlace hjump ⊢
    have hend : start + 2 + size thenCode + 2 + size elseCode ≤ unit.code.size := helsePlace.stands.le_size
    have helseNames := ihElse helsePlace hnext
    have hskipNames : unit.NamesOnly table around (start + 2 + size thenCode) := by
      refine .plain hskip.stands.cons.1 (by rintro _ ⟨⟩) (fun _ ↦ helseNames) fun target htarget ↦ ?_
      obtain rfl := Option.some.inj htarget
      change unit.NamesOnly table around (UInt32.ofNat (start + 2 + size thenCode + 2 + size elseCode)).toNat
      rw [hnumber hend]
      exact hnext
    have htarget : start + 2 + (size thenCode + 2) ≤ unit.code.size := by omega
    refine .plain hjump.stands.cons.1 (by rintro _ ⟨⟩) (fun _ ↦ ihThen hthenPlace hskipNames) fun target hfound ↦ ?_
    obtain rfl := Option.some.inj hfound
    rw [hnumber htarget]
    exact helseNames

end Units

/-- The code of a function binds names only at the ends of literals in its body. -/
theorem Closure.Compiled.namesOnly {around : Definition} {table : ConstantTable} {routine : Routine}
    (hcompiled : around.toClosure.Compiled table routine) (hsize : routine.unit.code.size < 4294967296) :
    routine.unit.NamesOnly table around 0 := by
  obtain ⟨strict, line, last, slots, code, -, hlowered, hunit⟩ := hcompiled.unit
  have hbody : code.Naming table around.literals (statementsSources around.body.nodes) :=
    hlowered.naming (List.Subset.refl _)
  have hstands : routine.unit.HasAt 0 (code ++ Lowering.undefinedAt last ++ [.plain .ret last]) := by
    rw [hunit]
    exact Fragment.hasAt_assemble _ _ _
  have hplaces : routine.unit.Places around.body.sources 0 0
      (statementsSources around.body.nodes ++ [⟨.ending, [.constant]⟩] ++ [⟨.ending, [.ret]⟩])
      (code ++ Lowering.undefinedAt last ++ [.plain .ret last]) :=
    ⟨rfl, hstands, by simp [Block.sources]⟩
  obtain ⟨hfront, hret⟩ := hplaces.append (by simp [Lowering.undefinedAt, hbody.length_eq])
  obtain ⟨hcode, hundefined⟩ := hfront.append hbody.length_eq
  rw [Fragment.size_append, ← Nat.add_assoc] at hret
  refine hbody.namesOnly hcode hsize (.plain hundefined.stands.cons.1 (by rintro _ ⟨⟩) (fun _ ↦ ?_) (by rintro _ ⟨⟩))
  exact .plain hret.stands.cons.1 (by rintro _ ⟨⟩) (fun hother ↦ absurd rfl hother) (by rintro _ ⟨⟩)

end ScriptMachine
