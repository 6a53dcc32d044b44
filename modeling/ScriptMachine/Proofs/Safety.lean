import ScriptMachine.Proofs.SessionActivities

/-!
# Compiled code is safe

Nothing that a session does breaks the machine: no command is answered with a fault of broken code, and
whatever activity its code goes through, the next instruction finds everything that it uses
(`Activity.WithinBounds`): its own words, its operands above the record of its frame, the slots of that
frame, and the words on the heap of every object that a variable or an operand refers to.
-/

set_option autoImplicit false
set_option relaxedAutoImplicit false

namespace ScriptMachine

/-! ### What an instruction uses -/

namespace Activity

/-- The cells below the operands of the running frame. -/
def floorSize (activity : Activity) : Nat :=
  activity.machine.stack.base + activity.frame.routine.unit.slotCount + recordSize

/-- The number of operands of the running frame. -/
def operandCount (activity : Activity) : Nat :=
  activity.machine.stack.top - activity.floorSize

/-- The variables and the operands of the running frame. -/
def liveWords (activity : Activity) : List Word :=
  activity.machine.stack.slice activity.machine.stack.base activity.frame.routine.unit.slotCount ++
    activity.machine.stack.slice activity.floorSize activity.operandCount

/-- The next instruction finds what it uses. It can be read, has the operands that it takes away, and names
only slots of its frame. The frame lies above the word of its function with its record in the cells in use,
which are all there. Every object that a variable or an operand refers to has its header and its fields among
the used words of the heap. -/
structure WithinBounds (activity : Activity) : Prop where
  operation : ∃ (instruction : Instruction) (operation : Operation),
    activity.frame.routine.unit.instructionAt activity.offset = .ok instruction ∧
      instruction.operation? activity.machine.constants = some operation ∧
      operation.pops ≤ activity.operandCount ∧
      ∀ slot ∈ operation.slot?, slot < activity.frame.routine.unit.slotCount
  base_pos : 0 < activity.machine.stack.base
  floor_le : activity.floorSize ≤ activity.machine.stack.top
  top_le : activity.machine.stack.top ≤ activity.machine.stack.cells.size
  objects : ∀ word ∈ activity.liveWords, ∀ index : UInt32, word.reference? = some index →
    ∃ layout : Class, activity.machine.decode word = .ok (.object ⟨index, layout⟩) ∧
      index.toNat + Heap.headerSize + layout.fieldCount ≤ activity.machine.heap.used

end Activity

/-! ### Running machines stay within bounds -/

/-- A word that refers to an object and holds a value leads to the object, which lies among the used words
with all its fields. -/
theorem Heap.Holds.exists_object {heap : Heap} {table : ConstantTable} {store : Store}
    (hholds : heap.Holds table store) (hshaped : Store.Shaped store.records) {word : Word} {value : Value}
    (hvalue : table.value? store.records word = some value) {index : UInt32}
    (hreference : word.reference? = some index) :
    ∃ layout : Class, ScriptMachine.decode table heap word = .ok (.object ⟨index, layout⟩) ∧
      index.toNat + Heap.headerSize + layout.fieldCount ≤ heap.used := by
  have hkind := Word.kind_of_reference? hreference
  have hdecoded := hholds.decode hvalue
  unfold ConstantTable.value? at hvalue
  rw [hkind] at hvalue
  obtain ⟨layout, hlayout, rfl⟩ := Option.map_eq_some_iff.mp hvalue
  obtain ⟨record, hrecord, rfl⟩ := Option.map_eq_some_iff.mp hlayout
  refine ⟨record.layout, hdecoded, ?_⟩
  have hsize := Store.add_size_le_of_recordAt? hrecord
  rw [Record.size, hshaped record (Store.mem_of_recordAt? hrecord)] at hsize
  rw [hholds.used_eq, Nat.add_assoc]
  exact hsize

namespace Tracked

variable {limit : Nat} {registry : Registry} {known : List Value} {activity : Activity}
  {chain : FrameChain} {calls : CallStack}

/-- The cells below the operands are those of the chain of frames. -/
theorem floorSize_eq (htracked : Tracked limit registry known activity chain calls) :
    activity.floorSize = chain.floor.length := by
  have hbase : activity.machine.stack.base = chain.base := htracked.mirrors.realizes.base
  have hframe : activity.frame = chain.current.frame := htracked.mirrors.realizes.frame
  have hwidth := htracked.mirrors.current.width
  rw [Activity.floorSize, hbase, hframe, chain.base_eq, ← hwidth]
  simp only [FrameChain.floor, FrameChain.record, List.length_append, List.length_cons, List.length_nil,
    recordSize]
  omega

/-- The operands are those of the chain of frames. -/
theorem operandCount_eq (htracked : Tracked limit registry known activity chain calls) :
    activity.operandCount = chain.current.operands.length := by
  rw [Activity.operandCount, htracked.floorSize_eq, htracked.mirrors.view.top_eq_operands,
    Nat.add_sub_cancel_left]

/-- The variables and the operands are those of the running frame. -/
theorem liveWords_eq (htracked : Tracked limit registry known activity chain calls) :
    activity.liveWords = chain.current.locals ++ chain.current.operands.reverse := by
  have hcontents : activity.machine.stack.contents = chain.floor ++ chain.current.operands.reverse :=
    htracked.mirrors.view.contents
  have hbase : activity.machine.stack.base = (chain.lower ++ [chain.current.frame.word]).length := by
    rw [show activity.machine.stack.base = chain.base from htracked.mirrors.realizes.base, chain.base_eq,
      List.length_append, List.length_singleton]
  have hframe : activity.frame = chain.current.frame := htracked.mirrors.realizes.frame
  have hlocals : activity.machine.stack.slice activity.machine.stack.base
      activity.frame.routine.unit.slotCount = chain.current.locals := by
    rw [hbase, hframe, ← htracked.mirrors.current.width]
    refine Stack.slice_eq _ _ (chain.record ++ chain.current.operands.reverse) ?_
    rw [hcontents, FrameChain.floor]
    simp only [List.append_assoc, List.cons_append, List.nil_append]
  have hoperands : activity.machine.stack.slice activity.floorSize activity.operandCount =
      chain.current.operands.reverse := by
    rw [htracked.floorSize_eq, htracked.operandCount_eq,
      show chain.current.operands.length = chain.current.operands.reverse.length from
        List.length_reverse.symm]
    exact Stack.slice_eq _ _ [] (by rw [List.append_nil]; exact hcontents)
  rw [Activity.liveWords, hlocals, hoperands]

/-- Every variable and every operand of the running frame holds a value. -/
theorem exists_value?_of_mem_liveWords (htracked : Tracked limit registry known activity chain calls)
    {word : Word} (hmem : word ∈ activity.liveWords) :
    ∃ value : Value, calls.constants.value? calls.world.store.records word = some value := by
  rw [htracked.liveWords_eq, List.mem_append, List.mem_reverse] at hmem
  rcases hmem with hlocal | hoperand
  · exact htracked.mirrors.current.locals.exists_value? hlocal
  · exact htracked.mirrors.current.operands.exists_value? hoperand

/-- A machine that mirrors valid calls stays within bounds. -/
theorem withinBounds (htracked : Tracked limit registry known activity chain calls) :
    activity.WithinBounds where
  operation := by
    obtain ⟨instruction, operation, hinstruction, hresolved, -, hpops, hslot⟩ :=
      htracked.exists_instruction
    have hconstants : activity.machine.constants = calls.constants :=
      htracked.mirrors.realizes.constants
    refine ⟨instruction, operation, hinstruction, hconstants ▸ hresolved, ?_, hslot⟩
    rw [htracked.operandCount_eq, htracked.mirrors.current.operands.length_eq]
    exact hpops
  base_pos := by
    rw [show activity.machine.stack.base = chain.base from htracked.mirrors.realizes.base, chain.base_eq]
    exact Nat.succ_pos _
  floor_le := by
    rw [htracked.floorSize_eq, htracked.mirrors.view.top_eq_operands]
    exact Nat.le_add_right _ _
  top_le := htracked.mirrors.realizes.fits.top_le
  objects := by
    intro word hmem index hreference
    obtain ⟨value, hvalue⟩ := htracked.exists_value?_of_mem_liveWords hmem
    have hrealizes := htracked.mirrors.realizes
    have hheap : activity.machine.heap.Holds calls.constants calls.world.store := hrealizes.heap
    have hconstants : activity.machine.constants = calls.constants := hrealizes.constants
    rw [Machine.decode, hconstants]
    exact hheap.exists_object htracked.valid.world.shaped hvalue hreference

end Tracked

/-! ### Sessions -/

/-- No step of a session is answered with a fault of broken code. While its code runs, the next instruction
always finds what it uses, and a field that the host reads lies among the used words of the heap. -/
theorem Session.never_breaks {engine : Engine} {known : List Value} {closures : List Closure} {command : Command}
    (hsession : Session engine known closures) (hadmissible : command.Admissible known)
    (haddresses : engine.Addresses known command) (hsmall : engine.StaysSmall command) :
    (∀ (steps : Nat) (answer : Answer) (next : Engine),
        engine.perform steps command = some (answer, next) →
          ∀ fault ∈ answer.fault?, ¬ fault.Internal) ∧
      (∀ activity : Activity, engine.Visits command activity → activity.WithinBounds) ∧
      ∀ (object : ObjectRef) (name : String) (slot : Nat), command = .getField object name →
        object.layout.slotOf? name = some slot →
        object.index.toNat + Heap.headerSize + slot < engine.machine.heap.used := by
  have hconsistent := hsession.consistent
  refine ⟨fun steps answer next hperformed ↦
    (hconsistent.perform hadmissible haddresses hsmall hperformed).2, fun activity hvisits ↦ ?_, ?_⟩
  · obtain ⟨registry, chain, calls, htracked, -⟩ :=
      hconsistent.exists_tracked hadmissible haddresses hsmall hvisits
    exact htracked.withinBounds
  · rintro object name slot rfl hslot
    obtain ⟨registry, world, hmachine, -⟩ := hconsistent
    obtain ⟨value, -, -, hinside⟩ := hmachine.getField (hmachine.world.given _ hadmissible) name
    exact hinside slot hslot

/-- The first command of a fresh engine makes an object and changes it without breaking anything. -/
theorem Session.never_breaks_cyclic :
    Session Engine.fresh [] [] ∧ (Command.eval Script.cyclic).Admissible [] ∧
      Engine.fresh.Addresses [] (.eval Script.cyclic) ∧ Engine.fresh.StaysSmall (.eval Script.cyclic) ∧
      (∀ (steps : Nat) (answer : Answer) (next : Engine),
        Engine.fresh.perform steps (.eval Script.cyclic) = some (answer, next) →
          ∀ fault ∈ answer.fault?, ¬ fault.Internal) ∧
      ∀ activity : Activity, Engine.fresh.Visits (.eval Script.cyclic) activity → activity.WithinBounds :=
  have hsession : Session Engine.fresh [] [] := .standard _ _ _
  have hadmissible : (Command.eval Script.cyclic).Admissible [] := trivial
  have hsafe := hsession.never_breaks hadmissible Engine.addresses_cyclic (Engine.staysSmall_fresh _)
  ⟨hsession, trivial, Engine.addresses_cyclic, Engine.staysSmall_fresh _, hsafe.1, hsafe.2.1⟩

end ScriptMachine
