import ScriptMachine.Proofs.Activations
import ScriptMachine.Proofs.SessionRuns

/-!
# What the code of a session goes through

When a command of a session begins to run code, the machine has a single frame on its stack, which the host
entered, above the words that were there before (`Engine.Consistent.exists_start`). Every activity that the
command visits then mirrors valid calls over the same words (`Engine.Consistent.exists_tracked`): it belongs
to an activation of the run, and every caller on its stack waits behind a call instruction.
-/

set_option autoImplicit false
set_option relaxedAutoImplicit false

namespace ScriptMachine

/-! ### Callers wait behind their calls -/

/-- A frame waits behind a call instruction of its own code. -/
def Segment.AwaitsCall (segment : Segment) : Prop :=
  ∃ (offset : Nat) (argumentCount : UInt32),
    segment.frame.routine.unit.instructionAt offset = .ok (.call argumentCount) ∧
      segment.offset = offset + (Instruction.call argumentCount).size

/-- An instruction stays within its activation, or begins a call, or returns to a caller. -/
theorem Activity.Continues.stays_or_calls_or_leaves {activity next : Activity}
    (hcontinues : activity.Continues next) :
    activity.Stays next ∨ activity.Calls next ∨ activity.Leaves next := by
  by_cases hreturns : activity.Returns
  · exact Or.inr (Or.inr ⟨hreturns, hcontinues⟩)
  · cases hcallee : activity.callee? with
    | some routine => exact Or.inr (Or.inl ⟨by rw [hcallee]; rfl, hcontinues⟩)
    | none => exact Or.inl ⟨hcallee, hreturns, hcontinues⟩

namespace Tracked

variable {limit : Nat} {registry : Registry} {known : List Value} {start activity next : Activity}
  {chain : FrameChain} {calls : CallStack}

/-- An instruction keeps every caller behind a call instruction, and the words from before the host
entered. -/
theorem exists_awaiting_of_continues (htracked : Tracked limit registry known activity chain calls)
    (hawaiting : ∀ caller ∈ chain.callers, caller.AwaitsCall) (hcontinues : activity.Continues next) :
    ∃ (later : FrameChain) (nextCalls : CallStack), Tracked limit registry known next later nextCalls ∧
      later.entry = chain.entry ∧ later.hostBase = chain.hostBase ∧
      ∀ caller ∈ later.callers, caller.AwaitsCall := by
  rcases hcontinues.stays_or_calls_or_leaves with hstays | hcalls | hleaves
  · obtain ⟨later, nextCalls, hlater, hsame, -⟩ := htracked.of_stays hstays
    exact ⟨later, nextCalls, hlater, hsame.entry, hsame.hostBase, hsame.callers ▸ hawaiting⟩
  · obtain ⟨argumentCount, later, nextCalls, _, _, _, hinstruction, -, hlater, -, hentry, hhost, -,
      hcallers⟩ := htracked.of_calls hcalls
    refine ⟨later, nextCalls, hlater, hentry, hhost, ?_⟩
    rw [hcallers]
    refine List.forall_mem_cons.mpr ⟨⟨chain.current.offset, argumentCount, ?_, rfl⟩, hawaiting⟩
    have hframe : activity.frame = chain.current.frame := htracked.mirrors.realizes.frame
    have hoffset : activity.offset = chain.current.offset := htracked.mirrors.realizes.offset
    rw [← hoffset, ← hframe]
    exact hinstruction
  · obtain ⟨caller, callers, _, _, nextCalls, hcallers, -, hlater⟩ := htracked.of_leaves hleaves
    exact ⟨_, nextCalls, hlater, rfl, rfl,
      fun waiting hmem ↦ hawaiting waiting (hcallers ▸ List.mem_cons_of_mem _ hmem)⟩

/-- In a run of a single frame that the host entered, every caller waits behind a call instruction. -/
theorem exists_awaiting (htracked : Tracked limit registry known start chain calls)
    (houtermost : chain.callers = []) (hreaches : start.Reaches activity) :
    ∃ (later : FrameChain) (nextCalls : CallStack),
      Tracked limit registry known activity later nextCalls ∧ later.entry = chain.entry ∧
      later.hostBase = chain.hostBase ∧ ∀ caller ∈ later.callers, caller.AwaitsCall := by
  induction hreaches with
  | refl => exact ⟨chain, calls, htracked, rfl, rfl, houtermost ▸ List.forall_mem_nil _⟩
  | tail _ hcontinues ih =>
    obtain ⟨between, betweenCalls, hbetween, hentry, hhost, hawaiting⟩ := ih
    obtain ⟨later, nextCalls, hlater, hsameEntry, hsameHost, hstill⟩ :=
      hbetween.exists_awaiting_of_continues hawaiting hcontinues
    exact ⟨later, nextCalls, hlater, hsameEntry.trans hentry, hsameHost.trans hhost, hstill⟩

end Tracked

/-! ### Commands that run code -/

namespace Engine.Consistent

variable {engine : Engine} {known : List Value} {closures : List Closure} {command : Command}
  {start activity : Activity}

/-- The code of a command begins in a single frame that the host entered. -/
theorem exists_start (hconsistent : engine.Consistent known closures)
    (hadmissible : command.Admissible known) (haddresses : engine.Addresses known command)
    (hsmall : engine.StaysSmall command) (hbegins : engine.Begins command start) :
    ∃ (registry : Registry) (chain : FrameChain) (calls : CallStack),
      Tracked engine.machine.stack.limit registry known start chain calls ∧ chain.callers = [] ∧
        chain.entry = [] ∧ chain.hostBase = 0 := by
  obtain ⟨routine, arguments, hruns, henters⟩ := hbegins
  obtain ⟨registry, world, -, hready, -⟩ := hconsistent.ready hadmissible haddresses hruns
  have hlimit : (engine.prepared command).machine.stack.limit = engine.machine.stack.limit := by
    rw [prepared_stack]
  rcases hready.rests.enters (by omega) hready.registered hready.values hready.size with
    ⟨begun, chain, hbegun, -, hentry, hhost, hmirrors, hvalid⟩ | ⟨hnever, -⟩
  · obtain rfl := hbegun.unique henters
    refine ⟨registry, chain, _, ⟨hlimit ▸ hmirrors, hvalid, ?_⟩, ?_, hentry, hhost⟩
    · rw [← hlimit]
      exact fun hlarge ↦ hsmall.not_crowds hruns hlarge begun henters
    · exact List.forall₂_nil_right_iff.mp hmirrors.callers
  · exact absurd henters (hnever start)

/-- Every activity that a command visits mirrors valid calls, with every caller behind a call
instruction. -/
theorem exists_tracked (hconsistent : engine.Consistent known closures)
    (hadmissible : command.Admissible known) (haddresses : engine.Addresses known command)
    (hsmall : engine.StaysSmall command) (hvisits : engine.Visits command activity) :
    ∃ (registry : Registry) (chain : FrameChain) (calls : CallStack),
      Tracked engine.machine.stack.limit registry known activity chain calls ∧ chain.entry = [] ∧
        chain.hostBase = 0 ∧ ∀ caller ∈ chain.callers, caller.AwaitsCall := by
  obtain ⟨start, hbegins, hreaches⟩ := hvisits
  obtain ⟨registry, chain, calls, htracked, houtermost, hentry, hhost⟩ :=
    hconsistent.exists_start hadmissible haddresses hsmall hbegins
  obtain ⟨later, nextCalls, hlater, hsameEntry, hsameHost, hawaiting⟩ :=
    htracked.exists_awaiting houtermost hreaches
  exact ⟨registry, later, nextCalls, hlater, hsameEntry.trans hentry, hsameHost.trans hhost, hawaiting⟩

end Engine.Consistent

/-! ### A first command -/

/-- A script that makes an object with a function of its own and lets the object refer to itself. -/
def Script.cyclic : Script :=
  ⟨⟨[.function (some "make") ["x"] ⟨[.ret (.object [⟨"value", .access "x" 1⟩] 1) 1], 1⟩ 1,
    .assignment "p" (.call (.access "make" 2) [.literal (.integer 1) 2] 2) true 2,
    .fieldAssignment (.access "p" 3) "value" (.access "p" 3) 3,
    .ret (.access "p" 4) 4], 1⟩⟩

/-- An engine with the standard globals and sizes that has run nothing. -/
def Engine.fresh : Engine :=
  ⟨Machine.standard Limits.standard (Sink.ofBudget none), false⟩

/-- The only function among the constants of a table with a class and a text more is an older one. -/
theorem ConstantTable.mem_of_mem_box {table : ConstantTable} {added : Value} {callee : Function}
    (hmem : .function callee ∈ (table.box added).2.entries) (hadded : added ≠ .function callee) :
    .function callee ∈ table.entries :=
  (mem_entries_box hmem).resolve_right (Ne.symm hadded)

open Lowering in
/-- The script of a cyclic object is accepted. It adds five constants at most, with one function among
them. -/
theorem compileScript_cyclic (workspace : Workspace) :
    ∃ (main : Routine) (after : Workspace),
      compileScript false Script.cyclic workspace = .ok main after ∧ main.unit.code.size = 28 ∧
      after.constants.size ≤ workspace.constants.size + 5 ∧
      ∀ routine : Routine, .function (.compiled routine) ∈ after.constants.entries →
        .function (.compiled routine) ∈ workspace.constants.entries ∨ routine.unit.code.size = 8 := by
  generalize hcompiled : compileScript false Script.cyclic workspace = compiled
  simp [compileScript, compileFunction, Script.cyclic, routineOf, SlotTable.allocate, declarationsOf,
    Node.declarations, fieldDeclarations, SlotTable.declareParameter_eq, SlotTable.declareVariable_eq,
    SlotTable.names_declare, lowerStatements, lowerNode, lowerValues, lowerFields, SlotTable.slotOf?_eq_findIdx?,
    SlotTable.receiverName, constant, freshIdentity, literalWord, firstRepeated?, bind, EStateM.bind, pure,
    EStateM.pure, Except.bind, Except.pure, statementOf, valueOf, Node.isStatement, undefinedAt, endLine,
    SlotTable.size, Node.line, List.findIdx?_cons, Word.ofInteger?, Word.smallIntegerLimit,
    -bind_pure_comp] at hcompiled
  subst hcompiled
  refine ⟨_, _, rfl, ?_, ?_, fun routine hmem ↦ ?_⟩
  · dsimp only
    rw [Fragment.size_assemble]
    rfl
  · -- one constant after the other: the class, the function and three texts
    dsimp only
    change _ ≤ workspace.constants.size + 1 + 1 + 1 + 1 + 1
    iterate 4 apply Nat.le_trans (ConstantTable.size_box_le _ _) (Nat.add_le_add_right _ 1)
    exact ConstantTable.size_box_le _ _
  · dsimp only at hmem
    have hvalue := ConstantTable.mem_of_mem_box hmem (by rintro ⟨⟩)
    have hcall := ConstantTable.mem_of_mem_box hvalue (by rintro ⟨⟩)
    have hname := ConstantTable.mem_of_mem_box hcall (by rintro ⟨⟩)
    rcases ConstantTable.mem_entries_box hname with hlayout | hsame
    · exact Or.inl (ConstantTable.mem_of_mem_box hlayout (by rintro ⟨⟩))
    · cases hsame
      refine Or.inr ?_
      rw [Fragment.size_assemble]
      rfl

/-- A fresh engine accepts the script of a cyclic object. -/
theorem Engine.exists_main_cyclic : ∃ main : Routine, Engine.fresh.main? Script.cyclic = some main := by
  obtain ⟨main, after, hcompiled, -⟩ :=
    compileScript_cyclic ⟨Engine.fresh.machine.constants, Engine.fresh.machine.nextIdentity⟩
  refine ⟨main, ?_⟩
  rw [main?, compile_of_compileScript hcompiled]
  rfl

/-- Words can number all that a script needs which an engine accepts, if they can number its constants and the code of
its functions. -/
theorem Engine.addresses_eval {engine : Engine} {known : List Value} {script : Script} {main : Routine}
    {after : Workspace}
    (hcompiled : compileScript engine.strict script ⟨engine.machine.constants, engine.machine.nextIdentity⟩ =
      .ok main after)
    (hconstants : after.constants.size < Word.indexLimit) (hmain : main.unit.code.size < 4294967295)
    (hroutines : ∀ routine : Routine,
      .function (.compiled routine) ∈ after.constants.entries ∨ .function (.compiled routine) ∈ known →
        routine.unit.code.size < 4294967295) :
    engine.Addresses known (.eval script) := by
  have hcompile := compile_of_compileScript hcompiled
  have hprepared : (engine.prepared (.eval script)).machine.constants = after.constants := by
    rw [@prepared_eq _ (.eval script) script rfl, hcompile]
  refine ⟨?_, ?_, ?_⟩
  · rw [hprepared]
    exact hconstants
  · rw [hprepared]
    exact hroutines
  · intro routine arguments hruns
    have hfound : engine.main? script = some main := by rw [main?, hcompile]; rfl
    rw [runs?, hfound] at hruns
    cases hruns
    exact hmain

/-- A fresh engine has no compiled function among its constants. -/
theorem Engine.not_mem_constants_fresh (routine : Routine) :
    .function (.compiled routine) ∉ Engine.fresh.machine.constants.entries := by
  intro hmem
  have hundefined : Value.function (.compiled routine) ∈ (#[.undefined] : Array Value) := hmem
  simp at hundefined

/-- Words can number all that the script of a cyclic object needs. -/
theorem Engine.addresses_cyclic : Engine.fresh.Addresses [] (.eval Script.cyclic) := by
  obtain ⟨main, after, hcompiled, hmain, hsize, hroutines⟩ :=
    compileScript_cyclic ⟨Engine.fresh.machine.constants, Engine.fresh.machine.nextIdentity⟩
  refine addresses_eval hcompiled (Nat.lt_of_le_of_lt hsize (by decide)) (by omega) ?_
  rintro routine (hmem | hknown)
  · have hsmall := (hroutines routine hmem).resolve_left (not_mem_constants_fresh routine)
    omega
  · cases hknown

/-- Words can number the words on the stack of a fresh engine. -/
theorem Engine.staysSmall_fresh (command : Command) : Engine.fresh.StaysSmall command :=
  fun hlarge ↦ absurd hlarge (by decide)

end ScriptMachine
