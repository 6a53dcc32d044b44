import ScriptMachine.Proofs.AlikeCode
import ScriptMachine.Proofs.LastingChanges
import ScriptMachine.Proofs.Origins
import ScriptMachine.Proofs.Outcomes
import ScriptMachine.Proofs.SessionActivities
import ScriptMachine.Proofs.Termination
import ScriptMachine.Proofs.WrittenSessions

/-!
# Where faults are placed

A fault that code of a session raises names the place of the instruction that failed: the function in whose body it
stands, its mnemonic, and the source line of the node that has emitted it (`Session.places_faults`). The failing
instruction is in the frame that runs, at any depth and after any returns; a native function that fails and a call that
is refused fail in the instruction of the caller. A fault before the first instruction is placed at the entry of the
function that the host has called.

The line and the opcode are known for an offset at which an instruction of the code starts
(`Closure.Compiled.exists_source`). So all calls in progress have to stand at such offsets, which every step preserves
(`CallStack.AtStarts.step`), because jumps lead to the starts of instructions.
-/

set_option autoImplicit false
set_option relaxedAutoImplicit false

namespace ScriptMachine

/-! ### Instructions of functions -/

namespace Closure.Compiled

variable {closure : Closure} {table : ConstantTable} {routine : Routine} {ending : UInt32}

/-- The jumps of a function lead to the starts of instructions. -/
theorem jumpsToStarts (hcompiled : closure.Compiled table routine) (hending : routine.unit.lastLine? = some ending)
    (hsize : routine.unit.code.size < 4294967296) : routine.unit.JumpsToStarts := by
  obtain ⟨code, slotCount, -, hrounded, hunit⟩ := hcompiled.exists_assembled hending
  rw [hunit] at hsize ⊢
  rw [Fragment.size_assemble] at hsize
  exact hrounded.jumpsToStarts hsize

/-- An instruction of a function has the line and an opcode of the source with its number. -/
theorem exists_source (hcompiled : closure.Compiled table routine) (hending : routine.unit.lastLine? = some ending)
    (hsize : routine.unit.code.size < 4294967296) {number offset : Nat} {instruction : Instruction}
    (hstart : routine.unit.startOf? number = some offset)
    (hinstruction : routine.unit.instructionAt offset = .ok instruction) :
    ∃ source : Source, closure.body.sources[number]? = some source ∧ instruction.opcode ∈ source.opcodes ∧
      routine.unit.lineAt offset = source.origin.line ending := by
  obtain ⟨code, slotCount, hcode, -, hunit⟩ := hcompiled.exists_assembled hending
  rw [hunit] at hsize hstart hinstruction ⊢
  rw [Fragment.size_assemble] at hsize
  exact hcode.exists_source (Nat.le_of_lt hsize) hstart hinstruction

end Closure.Compiled

/-! ### Calls at the starts of instructions -/

/-- An operation goes on behind its instruction, or at the target of its jump. -/
theorem Instruction.eq_or_target?_of_successors {table : ConstantTable} {instruction : Instruction}
    {operation : Operation} (hresolved : instruction.operation? table = some operation) {next target : Nat}
    (htarget : target ∈ operation.successors next) :
    target = next ∨ ∃ jump : UInt32, instruction.target? = some jump ∧ target = jump.toNat := by
  cases instruction <;> simp only [operation?, Option.map_eq_some_iff] at hresolved
  case goto jump =>
    obtain rfl := Option.some.inj hresolved
    exact Or.inr ⟨jump, rfl, List.mem_singleton.mp htarget⟩
  case jumpIfFalse jump =>
    obtain rfl := Option.some.inj hresolved
    rcases List.mem_cons.mp htarget with rfl | hnext
    · exact Or.inr ⟨jump, rfl, rfl⟩
    · exact Or.inl (List.mem_singleton.mp hnext)
  case ret =>
    obtain rfl := Option.some.inj hresolved
    cases htarget
  case constant | lookup | register | new | get | put =>
    obtain ⟨_, -, rfl⟩ := hresolved
    exact Or.inl (List.mem_singleton.mp htarget)
  all_goals
    obtain rfl := Option.some.inj hresolved
    exact Or.inl (List.mem_singleton.mp htarget)

/-- A call in progress goes on at the start of an instruction. -/
def Level.AtStart (level : Level) : Prop :=
  ∃ number : Nat, level.routine.unit.startOf? number = some level.offset

/-- All calls in progress go on at the starts of instructions. -/
structure CallStack.AtStarts (calls : CallStack) : Prop where
  current : calls.current.AtStart
  callers : ∀ caller ∈ calls.callers, caller.AtStart

/-- Where calls go on after an operation: at a successor of it, at the beginning of a function that waits for nothing,
or where the caller waits. -/
inductive CallStack.GoesOn (calls later : CallStack) (operation : Operation) (next : Nat) : Prop where
  | within (hcallers : later.callers = calls.callers) (hroutine : later.current.routine = calls.current.routine)
      (hoffset : later.current.offset ∈ operation.successors next)
  | enters {waiting : Level} (hcallers : later.callers = waiting :: calls.callers)
      (hroutine : waiting.routine = calls.current.routine) (hwaiting : waiting.offset ∈ operation.successors next)
      (hoffset : later.current.offset = 0)
  | leaves {caller : Level} (hcallers : calls.callers = caller :: later.callers)
      (hroutine : later.current.routine = caller.routine) (hoffset : later.current.offset = caller.offset)

/-- Calls that go on do so in one of the three ways. -/
theorem CallStack.exists_goesOn {calls later : CallStack} (hstep : calls.step = some (.next later)) :
    ∃ (instruction : Instruction) (operation : Operation),
      calls.current.routine.unit.instructionAt calls.current.offset = .ok instruction ∧
        instruction.operation? calls.constants = some operation ∧
        calls.GoesOn later operation (calls.current.offset + instruction.size) := by
  unfold CallStack.step at hstep
  split at hstep
  case h_1 => cases hstep
  case h_2 operation next hoperation =>
    obtain ⟨instruction, hinstruction, hresolved, rfl⟩ := CodeUnit.exists_instruction_of_operationAt hoperation
    refine ⟨instruction, operation, hinstruction, hresolved, ?_⟩
    generalize calls.current.offset + instruction.size = next at hstep ⊢
    by_cases hcall : ∃ argumentCount : Nat, operation = .call argumentCount
    · obtain ⟨argumentCount, rfl⟩ := hcall
      unfold perform at hstep
      dsimp only at hstep
      split at hstep
      case h_1 receiver callee rest _ =>
        rcases call_eq_next hstep with ⟨-, hcallers, hroutine, hoffset⟩ | ⟨routine, -, rfl⟩
        · exact .within hcallers hroutine (List.mem_singleton.mpr hoffset)
        · exact .enters rfl rfl (List.mem_singleton_self next) rfl
      case h_2 => cases hstep
    by_cases hret : operation = .ret
    · subst hret
      unfold perform at hstep
      generalize (calls.withOffset next).current.operands = operands at hstep
      obtain _ | ⟨value, rest⟩ := operands
      · cases hstep
      · have hleft := Option.some.inj hstep
        unfold leave at hleft
        split at hleft
        case h_1 => cases hleft
        case h_2 caller callers hcallers =>
          obtain rfl := Progress.next.inj hleft
          exact .leaves hcallers rfl rfl
    · have hother : ∀ argumentCount : Nat, operation ≠ .call argumentCount :=
        fun argumentCount hsame ↦ hcall ⟨argumentCount, hsame⟩
      obtain ⟨hcallers, hroutine, hoffset⟩ := perform_eq_next hother hret hstep
      exact .within hcallers hroutine hoffset

/-- Calls stay at the starts of instructions when the jumps of the innermost one lead there. -/
theorem CallStack.AtStarts.step {calls later : CallStack} (hstarts : calls.AtStarts)
    (hjumps : calls.current.routine.unit.JumpsToStarts) (hstep : calls.step = some (.next later)) :
    later.AtStarts := by
  obtain ⟨instruction, operation, hinstruction, hresolved, hgoesOn⟩ := exists_goesOn hstep
  obtain ⟨number, hstart⟩ := hstarts.current
  have hsuccessor : ∀ {level : Level}, level.routine = calls.current.routine →
      level.offset ∈ operation.successors (calls.current.offset + instruction.size) → level.AtStart := by
    intro level hroutine hoffset
    unfold Level.AtStart
    rw [hroutine]
    rcases Instruction.eq_or_target?_of_successors hresolved hoffset with hnext | ⟨jump, hjump, htarget⟩
    · rw [hnext]
      exact ⟨number + 1, CodeUnit.startOf?_succ hstart hinstruction⟩
    · rw [htarget]
      exact hjumps number _ instruction jump hstart hinstruction hjump
  cases hgoesOn with
  | within hcallers hroutine hoffset => exact ⟨hsuccessor hroutine hoffset, hcallers ▸ hstarts.callers⟩
  | enters hcallers hroutine hwaiting hoffset =>
    refine ⟨⟨0, congrArg some hoffset.symm⟩, ?_⟩
    rw [hcallers]
    exact List.forall_mem_cons.mpr ⟨hsuccessor hroutine hwaiting, hstarts.callers⟩
  | leaves hcallers hroutine hoffset =>
    obtain ⟨hcaller, hothers⟩ := List.forall_mem_cons.mp (hcallers ▸ hstarts.callers)
    refine ⟨?_, hothers⟩
    unfold Level.AtStart
    rw [hroutine, hoffset]
    exact hcaller

/-! ### Failing instructions -/

/-- A run that fails has come to an instruction that fails, and places the fault there. -/
theorem Activity.exists_failing {steps : Nat} {start : Activity} {located : LocatedFault} {machine : Machine}
    (hrun : start.run steps = some (.error located, machine)) :
    ∃ (activity final : Activity) (fault : Fault), start.Reaches activity ∧
      Execution.step activity = .error fault final ∧ located = final.frame.locate fault activity.offset := by
  obtain ⟨last, hreaches, ⟨value, final, -, hsame⟩ | ⟨fault, final, hfailed, hsame⟩⟩ := exists_last hrun
  · cases hsame
  · exact ⟨last, final, fault, hreaches, hfailed, Except.error.inj (Prod.mk.inj hsame).1⟩

namespace Tracked

variable {limit : Nat} {registry : Registry} {known : List Value} {start activity final : Activity}
  {chain : FrameChain} {calls : CallStack}

/-- An instruction that fails leaves the running frame as it is. -/
theorem frame_eq_of_error (htracked : Tracked limit registry known activity chain calls) {fault : Fault}
    (hfailed : Execution.step activity = .error fault final) : final.frame = activity.frame := by
  obtain ⟨instruction, progress, -, hstep, -, hcorresponds⟩ := htracked.step
  refine htracked.mirrors.frame_eq_of_error htracked.valid htracked.room hstep (fun later hnext ↦ ?_)
    (fun value world constants hfinished ↦ ?_) hfailed
  · subst hnext
    rcases hcorresponds with ⟨next, laterChain, hok, -⟩ | ⟨full, -, -, hwords⟩
    · rw [hfailed] at hok
      cases hok
    · exact hwords
  · subst hfinished
    obtain ⟨ended, frame, offset, hok, -⟩ := hcorresponds
    rw [hfailed] at hok
    cases hok

/-- A run stays at the starts of instructions when the jumps of all functions lead there. -/
theorem exists_atStarts (htracked : Tracked limit registry known start chain calls) (hstarts : calls.AtStarts)
    (hjumps : ∀ routine : Routine, registry.functions routine.identity = some (.compiled routine) →
      routine.unit.JumpsToStarts) (hreaches : start.Reaches activity) :
    ∃ (later : FrameChain) (nextCalls : CallStack), Tracked limit registry known activity later nextCalls ∧
      nextCalls.AtStarts := by
  induction hreaches with
  | refl => exact ⟨chain, calls, htracked, hstarts⟩
  | tail _ hcontinues ih =>
    obtain ⟨between, betweenCalls, hbetween, hstill⟩ := ih
    obtain ⟨instruction, later, nextCalls, -, hlater, hstep, -, -⟩ := hbetween.of_continues hcontinues
    exact ⟨later, nextCalls, hlater, hstill.step (hjumps _ hbetween.valid.current.routine) hstep⟩

end Tracked

/-! ### Charged instructions -/

/-- A located fault is charged to the instruction of a function that starts at an offset of its code: it names the
function, the mnemonic of the instruction, and the line of the node that has emitted it. -/
structure Definition.Charged (definition : Definition) (unit : CodeUnit) (offset : Nat) (located : LocatedFault) :
    Prop where
  function : located.function = definition.name
  emitted : ∃ (number : Nat) (instruction : Instruction) (source : Source),
    unit.startOf? number = some offset ∧ unit.instructionAt offset = .ok instruction ∧
      definition.body.sources[number]? = some source ∧ instruction.opcode ∈ source.opcodes ∧
      located.operation = instruction.opcode.mnemonic ∧ located.line = source.origin.line definition.lastLine

/-- A routine is the code of a definition, and words can number the code. -/
structure Routine.CodeOf (routine : Routine) (definition : Definition) : Prop where
  describes : definition.Describes routine
  compiled : ∃ table : ConstantTable, definition.toClosure.Compiled table routine
  size : routine.unit.code.size < 4294967296

namespace Routine.CodeOf

variable {routine : Routine} {definition : Definition}

theorem jumpsToStarts (hcode : routine.CodeOf definition) : routine.unit.JumpsToStarts := by
  obtain ⟨table, hcompiled⟩ := hcode.compiled
  exact hcompiled.jumpsToStarts hcode.describes.lastLine hcode.size

/-- Where an instruction of a function starts, a fault is charged to it. -/
theorem charged {frame : Frame} (hcode : frame.routine.CodeOf definition) {number offset : Nat}
    {instruction : Instruction} (hstart : frame.routine.unit.startOf? number = some offset)
    (hinstruction : frame.routine.unit.instructionAt offset = .ok instruction) (fault : Fault) :
    definition.Charged frame.routine.unit offset (frame.locate fault offset) := by
  obtain ⟨table, hcompiled⟩ := hcode.compiled
  obtain ⟨source, hsource, hopcode, hline⟩ :=
    hcompiled.exists_source hcode.describes.lastLine hcode.size hstart hinstruction
  exact ⟨hcode.describes.name, number, instruction, source, hstart, hinstruction, hsource, hopcode,
    CodeUnit.mnemonicAt_eq hinstruction, hline⟩

end Routine.CodeOf

/-- A run of calls whose functions are the code of definitions charges its fault to the instruction that fails. -/
theorem Tracked.exists_charged {limit : Nat} {registry : Registry} {known : List Value} {start : Activity}
    {chain : FrameChain} {calls : CallStack} (htracked : Tracked limit registry known start chain calls)
    (hstarts : calls.AtStarts) {definitions : List Definition}
    (hcode : ∀ routine : Routine, registry.functions routine.identity = some (.compiled routine) →
      ∃ definition : Definition, routine.definition? definitions = some definition ∧ routine.CodeOf definition)
    {steps : Nat} {located : LocatedFault} {machine : Machine}
    (hrun : start.run steps = some (.error located, machine)) :
    ∃ (activity final : Activity) (definition : Definition), start.Reaches activity ∧
      Execution.step activity = .error located.fault final ∧
      activity.frame.routine.definition? definitions = some definition ∧
      definition.Charged activity.frame.routine.unit activity.offset located := by
  obtain ⟨activity, final, fault, hreaches, hfailed, rfl⟩ := Activity.exists_failing hrun
  obtain ⟨later, failing, hfailing, hstill⟩ := htracked.exists_atStarts hstarts (fun routine hroutine ↦ by
    obtain ⟨definition, -, hcodeOf⟩ := hcode routine hroutine
    exact hcodeOf.jumpsToStarts) hreaches
  -- the failing instruction is that of the innermost call
  have hroutine : activity.frame.routine = failing.current.routine :=
    (congrArg Frame.routine hfailing.mirrors.realizes.frame).trans hfailing.mirrors.current.routine
  have hoffset : activity.offset = failing.current.offset :=
    hfailing.mirrors.realizes.offset.trans hfailing.mirrors.current.offset
  obtain ⟨number, hstart⟩ := hstill.current
  rw [← hroutine, ← hoffset] at hstart
  obtain ⟨instruction, -, hinstruction, -⟩ := hfailing.exists_instruction
  obtain ⟨definition, hfound, hcodeOf⟩ := hcode activity.frame.routine (hroutine ▸ hfailing.valid.current.routine)
  refine ⟨activity, final, definition, hreaches, hfailed, hfound, ?_⟩
  rw [hfailing.frame_eq_of_error hfailed]
  exact hcodeOf.charged hstart hinstruction fault

/-- A call of a ready machine charges its fault to the instruction that has failed, or it was refused. -/
theorem Machine.Ready.exists_charged {machine later : Machine} {known : List Value} {closures : List Closure}
    {registry : Registry} {world : World} {routine : Routine} {arguments : List Value}
    (hready : machine.Ready known closures registry world routine arguments)
    (hsmall : 4294967296 < machine.stack.limit → ∀ start : Activity,
      machine.Enters routine .undefined arguments start → ¬ start.Crowds) {definitions : List Definition}
    (hcode : ∀ found : Routine, registry.functions found.identity = some (.compiled found) →
      ∃ definition : Definition, found.definition? definitions = some definition ∧ found.CodeOf definition)
    {steps : Nat} {located : LocatedFault}
    (hinvoked : machine.invokeRoutine steps routine .undefined arguments = some (.error located, later)) :
    (∃ (start activity final : Activity) (definition : Definition),
        machine.Enters routine .undefined arguments start ∧ start.Reaches activity ∧
        Execution.step activity = .error located.fault final ∧
        activity.frame.routine.definition? definitions = some definition ∧
        definition.Charged activity.frame.routine.unit activity.offset located) ∨
      (∀ start : Activity, ¬ machine.Enters routine .undefined arguments start) ∧
        located = .atEntry located.fault routine.name := by
  rcases hready.rests.enters (by omega) hready.registered hready.values hready.size with
    ⟨start, chain, henters, -, -, -, hmirrors, hvalid⟩ | ⟨hnever, fault, refused, final, hrefused, -⟩
  · rw [henters.invokeRoutine_eq] at hinvoked
    obtain ⟨⟨result, last⟩, hrun, hcut⟩ := Option.map_eq_some_iff.mp hinvoked
    obtain rfl : result = .error located := (Machine.cutBack_fst _ _ _).symm.trans (congrArg Prod.fst hcut)
    have htracked : Tracked machine.stack.limit registry known start chain _ :=
      ⟨hmirrors, hvalid, fun hlarge ↦ hsmall hlarge start henters⟩
    have hstarts : (CallStack.entered world (machine.constants.box (.function (.compiled routine))).2 routine
        .undefined arguments).AtStarts := ⟨⟨0, rfl⟩, List.forall_mem_nil _⟩
    obtain ⟨activity, final, definition, hcharged⟩ := htracked.exists_charged hstarts hcode hrun
    exact Or.inl ⟨start, activity, final, definition, henters, hcharged⟩
  · have hsame := (hrefused steps).symm.trans hinvoked
    cases hsame
    exact Or.inr ⟨hnever, rfl⟩

/-! ### Faults at the entry of a function -/

namespace Engine

variable {engine next : Engine} {known : List Value} {definitions : List Definition} {command : Command}

/-- The name of the function that a command calls. The body of a script is called main, and a global that is bound to
no function has its own name. -/
def calleeName (engine : Engine) : Command → String
  | .call name _ =>
    match engine.machine.globals.lookup name with
    | .function callee => callee.name
    | _ => name
  | _ => "main"

/-- The function of a script is called main. -/
theorem name_of_main? {script : Script} {main : Routine} (hmain : engine.main? script = some main) :
    main.name = "main" := by
  have hdefines := defines_compileScript engine.strict script engine.machine.nextIdentity
    ⟨engine.machine.constants, engine.machine.nextIdentity⟩ rfl
  have hresult := main?_eq_some hmain
  unfold compile Machine.compileWith at hresult
  cases hcompiled : compileScript engine.strict script ⟨engine.machine.constants, engine.machine.nextIdentity⟩ with
  | error error after =>
    rw [hcompiled] at hresult
    cases hresult
  | ok found after =>
    rw [hcompiled] at hresult hdefines
    cases hresult
    exact hdefines.2.2.name

/-- The function that a command runs is the one that it calls. -/
theorem name_of_runs? {routine : Routine} {arguments : List Value}
    (hruns : engine.runs? command = some (routine, arguments)) : routine.name = engine.calleeName command := by
  cases starts_of_runs? hruns with
  | @eval command script main hscript hmain =>
    have hcallee : engine.calleeName command = "main" := by
      cases command
      case call => cases hscript
      all_goals rfl
    rw [hcallee]
    exact name_of_main? hmain
  | call hglobal =>
    unfold calleeName
    dsimp only
    rw [hglobal]
    rfl

/-- A command that runs no code places its fault at the entry of the function that it calls. -/
theorem located_of_runs?_eq_none (hruns : engine.runs? command = none) {steps : Nat} {located : LocatedFault}
    (hperformed : engine.perform steps command = some (.refused (.runtime located), next)) :
    located = .atEntry located.fault (engine.calleeName command) := by
  cases replies_of_perform hruns hperformed with
  | failed hglobal =>
    unfold calleeName
    dsimp only
    rw [hglobal]
    rfl
  | @notFunction name arguments hglobal =>
    unfold calleeName
    dsimp only
    cases hfound : engine.machine.globals.lookup name
    case function function => exact absurd hfound (hglobal function)
    all_goals rfl

/-- While the code of a command runs, all functions are compiled from definitions, which enclose their literals. -/
theorem Consistent.exists_definition (hconsistent : engine.Consistent known (definitions.map Definition.toClosure))
    (hcover : Definition.Cover definitions (engine.machine.constants.entries.toList ++ known))
    (haddresses : engine.Addresses known command) {routine : Routine} {arguments : List Value}
    (hruns : engine.runs? command = some (routine, arguments)) {registry : Registry} {world : World}
    (hready : (engine.prepared command).machine.Ready known
      (engine.closures command ++ definitions.map Definition.toClosure) registry world routine arguments)
    (hlisted : registry.Listed (.function (.compiled routine) ::
      ((engine.prepared command).machine.constants.entries.toList ++ known))) {found : Routine}
    (hfound : registry.functions found.identity = some (.compiled found)) :
    ∃ definition : Definition, found.definition? (engine.definitions command ++ definitions) = some definition ∧
      definition.Describes found ∧ definition.Encloses (engine.definitions command ++ definitions) ∧
      definition.toClosure.Compiled (engine.prepared command).machine.constants found ∧
      found.unit.code.size < 4294967296 := by
  have hwritten : found.WrittenIn (engine.definitions command ++ definitions) := by
    rcases List.mem_cons.mp (hlisted _ _ hfound) with hsame | hmem
    · cases hsame
      exact hconsistent.written_of_runs? hcover hruns
    · exact (hconsistent.cover_prepared hcover command).1 found hmem
  obtain ⟨definition, hdefinition, hdescribes, hencloses⟩ := hwritten
  obtain ⟨closure, hclosure, hcompiled⟩ := hready.consistent.compiled _ _ hfound
  have hsame : definition.toClosure = closure := by
    rw [← Engine.map_definitions, ← List.map_append, List.find?_map] at hclosure
    unfold Routine.definition? at hdefinition
    have hmapped := (congrArg (Option.map Definition.toClosure) hdefinition).symm.trans hclosure
    exact Option.some.inj hmapped
  have hsize := haddresses.size_lt hruns hlisted _ _ hfound
  refine ⟨definition, hdefinition, hdescribes, hencloses, ?_, by omega⟩
  rw [hsame]
  exact hcompiled _ (.refl _) (Nat.le_of_lt haddresses.constants)

/-- While the code of a command runs, all functions are the code of definitions. -/
theorem Consistent.exists_codeOf (hconsistent : engine.Consistent known (definitions.map Definition.toClosure))
    (hcover : Definition.Cover definitions (engine.machine.constants.entries.toList ++ known))
    (haddresses : engine.Addresses known command) {routine : Routine} {arguments : List Value}
    (hruns : engine.runs? command = some (routine, arguments)) {registry : Registry} {world : World}
    (hready : (engine.prepared command).machine.Ready known
      (engine.closures command ++ definitions.map Definition.toClosure) registry world routine arguments)
    (hlisted : registry.Listed (.function (.compiled routine) ::
      ((engine.prepared command).machine.constants.entries.toList ++ known))) {found : Routine}
    (hfound : registry.functions found.identity = some (.compiled found)) :
    ∃ definition : Definition, found.definition? (engine.definitions command ++ definitions) = some definition ∧
      found.CodeOf definition := by
  obtain ⟨definition, hdefinition, hdescribes, -, hcompiled, hsize⟩ :=
    hconsistent.exists_definition hcover haddresses hruns hready hlisted hfound
  exact ⟨definition, hdefinition, hdescribes, ⟨_, hcompiled⟩, hsize⟩

end Engine

/-! ### Sessions -/

/-- A fault of a session is placed at the instruction that has failed: in the function whose body was running, under
its mnemonic, and on the line of the node that has emitted it. If no instruction has run, it is placed at the entry of
the function that was called. -/
theorem Session.places_faults {engine next : Engine} {known : List Value} {definitions : List Definition}
    {command : Command} (hwritten : Session.Written engine known definitions)
    (hadmissible : command.Admissible known) (haddresses : engine.Addresses known command)
    (hsmall : engine.StaysSmall command) {steps : Nat} {located : LocatedFault}
    (hperformed : engine.perform steps command = some (.refused (.runtime located), next)) :
    (∃ (start activity final : Activity) (definition : Definition),
        engine.Begins command start ∧ start.Reaches activity ∧
        Execution.step activity = .error located.fault final ∧
        activity.frame.routine.definition? (engine.definitions command ++ definitions) = some definition ∧
        definition.Charged activity.frame.routine.unit activity.offset located) ∨
      (∀ start : Activity, ¬ engine.Begins command start) ∧
        located = .atEntry located.fault (engine.calleeName command) := by
  have hconsistent := hwritten.session.consistent
  cases hruns : engine.runs? command with
  | none =>
    refine Or.inr ⟨?_, Engine.located_of_runs?_eq_none hruns hperformed⟩
    rintro start ⟨routine, arguments, hsome, -⟩
    rw [hruns] at hsome
    cases hsome
  | some run =>
    obtain ⟨routine, arguments⟩ := run
    obtain ⟨registry, world, -, hready, hlisted⟩ := hconsistent.ready hadmissible haddresses hruns
    rw [Engine.perform_of_runs? hruns] at hperformed
    obtain ⟨⟨result, machine⟩, hinvoked, hanswer⟩ := Option.map_eq_some_iff.mp hperformed
    obtain rfl : result = .error located := by
      cases result <;> cases hanswer
      rfl
    rcases hready.exists_charged (hsmall.not_crowds hruns)
        (fun found ↦ hconsistent.exists_codeOf hwritten.cover haddresses hruns hready hlisted) hinvoked with
      ⟨start, activity, final, definition, henters, hcharged⟩ | ⟨hnever, hplace⟩
    · exact Or.inl ⟨start, activity, final, definition, ⟨routine, arguments, hruns, henters⟩, hcharged⟩
    · refine Or.inr ⟨?_, Engine.name_of_runs? hruns ▸ hplace⟩
      rintro start ⟨other, passed, hsome, henters⟩
      rw [hruns] at hsome
      cases hsome
      exact hnever start henters

/-- The script that makes an object without fields on a full stack fails on its only line. -/
theorem Session.places_faults_hollow :
    ∃ (located : LocatedFault) (next : Engine), Session.Written Engine.tight [] [] ∧
      (Command.eval Script.hollow).Admissible [] ∧ Engine.tight.Addresses [] (.eval Script.hollow) ∧
      Engine.tight.StaysSmall (.eval Script.hollow) ∧
      Engine.tight.perform 1 (.eval Script.hollow) = some (.refused (.runtime located), next) ∧
      located = ⟨.stackOverflow 5, "main", 1, "NEW"⟩ ∧
      ∃ (start activity final : Activity) (definition : Definition),
        Engine.tight.Begins (.eval Script.hollow) start ∧ start.Reaches activity ∧
        Execution.step activity = .error located.fault final ∧
        activity.frame.routine.definition? (Engine.tight.definitions (.eval Script.hollow) ++ []) = some definition ∧
        definition.Charged activity.frame.routine.unit activity.offset located := by
  have hwritten : Session.Written Engine.tight [] [] := .standard _ _ _
  have hsmall : Engine.tight.StaysSmall (.eval Script.hollow) := fun hlarge ↦ absurd hlarge (by decide)
  have hadmissible : (Command.eval Script.hollow).Admissible [] := trivial
  obtain ⟨start, final, identity, word, hbegins, hoffset, hfailed, hframe, -⟩ := Engine.exists_failing_hollow
  obtain ⟨routine, arguments, hruns, henters⟩ := hbegins
  have hrun : start.run 1 = some (.error ⟨.stackOverflow 5, "main", 1, "NEW"⟩, final.machine) := by
    unfold Activity.run
    dsimp only
    rw [hfailed, hoffset]
    dsimp only
    rw [hframe]
    rfl
  obtain ⟨next, hperformed⟩ : ∃ next : Engine, Engine.tight.perform 1 (.eval Script.hollow) =
      some (.refused (.runtime ⟨.stackOverflow 5, "main", 1, "NEW"⟩), next) := by
    have hanswer := Engine.perform_of_runs? hruns 1
    rw [henters.invokeRoutine_eq, hrun] at hanswer
    exact ⟨_, hanswer⟩
  rcases places_faults hwritten hadmissible Engine.addresses_hollow hsmall hperformed with hplaced | ⟨hnever, -⟩
  · exact ⟨_, _, hwritten, hadmissible, Engine.addresses_hollow, hsmall, hperformed, rfl, hplaced⟩
  · exact absurd ⟨routine, arguments, hruns, henters⟩ (hnever start)

end ScriptMachine
