import ScriptMachine.Proofs.FailedSteps

/-!
# Exact outcomes of runs

`CallStack.Stops` says what a machine answers that runs some calls on a stack with a limit: the value, the
fault together with its place, and the world and the constants that it leaves behind. A machine that mirrors
the calls gives that answer (`Mirrors.exists_stop`). The place of a fault is that of the innermost call, because
an instruction other than a return leaves the running frame alone when it fails
(`Execution.execute_failsInside`), and a return never fails. `Routine.Answers` says the same of a whole call of
the host, which may also be refused, and a machine at rest answers so (`Machine.Rests.exists_answer`).
-/

set_option autoImplicit false
set_option relaxedAutoImplicit false

namespace ScriptMachine

/-! ### The frame of a failing instruction -/

namespace Execution

variable {α β : Type}

/-- Something leaves the running frame as it is, whether it fails or not. -/
def KeepsFrame (action : Execution α) : Prop :=
  ∀ activity : Activity, (action.after activity).frame = activity.frame

/-- Something leaves the running frame as it is when it fails. -/
def FailsInside (action : Execution α) : Prop :=
  ∀ (activity final : Activity) (fault : Fault), action activity = .error fault final → final.frame = activity.frame

theorem Quiet.keepsFrame {action : Execution α} (hquiet : Quiet action) : KeepsFrame action :=
  fun activity ↦ (hquiet activity).frame

theorem Looks.keepsFrame {action : Execution α} (hlooks : Looks action) : KeepsFrame action :=
  hlooks.quiet.keepsFrame

namespace KeepsFrame

theorem failsInside {action : Execution α} (hkeeps : KeepsFrame action) : FailsInside action := by
  intro activity final fault herror
  have hafter := hkeeps activity
  rwa [Execution.after, herror] at hafter

theorem bind {part : Execution α} {rest : α → Execution β} (hpart : KeepsFrame part)
    (hrest : ∀ value : α, KeepsFrame (rest value)) : KeepsFrame (part >>= rest) :=
  @after_bind _ _ part (fun activity later ↦ later.frame = activity.frame) rest
    (fun hfirst hsecond ↦ hsecond.trans hfirst) hpart hrest

/-- What keeps the frame and then fails inside, fails inside. -/
theorem bind_fails {part : Execution α} {rest : α → Execution β} (hpart : KeepsFrame part)
    (hrest : ∀ value : α, FailsInside (rest value)) : FailsInside (part >>= rest) :=
  @fails_bind _ _ part (fun activity later ↦ later.frame = activity.frame) rest
    (fun hfirst hsecond ↦ hsecond.trans hfirst) hpart hrest

theorem register (name : String) (value : Value) : KeepsFrame (Execution.register name value) :=
  fun _ ↦ rfl

theorem allocate (header : Word) (fields : List Word) : KeepsFrame (Execution.allocate header fields) := by
  intro activity
  unfold Execution.after Execution.allocate Execution.onMachine Machine.onHeap
  dsimp only
  cases Heap.allocate header fields activity.machine.heap <;> rfl

theorem writeField (object : ObjectRef) (name : String) (word : Word) :
    KeepsFrame (Execution.writeField object name word) := by
  intro activity
  unfold Execution.after Execution.writeField
  cases object.layout.slotOf? name <;> rfl

theorem construct (header : Word) : KeepsFrame (Execution.construct header) := by
  unfold Execution.construct
  refine (Looks.classOf header).keepsFrame.bind fun layout activity ↦ ?_
  rw [after_get_bind]
  dsimp only
  split_ifs
  · rfl
  · exact (allocate _ _).bind (fun _ ↦ ((Quiet.cutStack _).bind fun _ ↦ Quiet.push _).keepsFrame) activity

end KeepsFrame

/-- A call that fails does so before the running frame changes. -/
theorem call_failsInside (argumentCount : Nat) : FailsInside (call argumentCount) := by
  intro activity final fault herror
  unfold call at herror
  dsimp only at herror
  split_ifs at herror with htop
  · cases herror
    rfl
  · refine KeepsFrame.bind_fails (Looks.functionOf _).keepsFrame (fun callee ↦ ?_) _ _ _ herror
    cases callee with
    | native identity name operation =>
      exact ((Looks.decode _).quiet.bind fun _ ↦ (Looks.decodeAll _).quiet.bind fun _ ↦
        (Quiet.applyNative _ _ _).bind fun _ ↦ (Quiet.encode _).bind fun _ ↦ (Quiet.cutStack _).bind fun _ ↦
          Quiet.push _).keepsFrame.failsInside
    | compiled routine =>
      refine KeepsFrame.bind_fails (Quiet.enter _ _ _ _).keepsFrame fun _ ↦ ?_
      rintro _ _ _ ⟨⟩

/-- An instruction other than a return leaves the running frame as it is when it fails. -/
theorem execute_failsInside {instruction : Instruction} (hreturn : instruction ≠ .ret) :
    FailsInside (execute instruction) := by
  have hpop : KeepsFrame Execution.pop := Quiet.pop.keepsFrame
  have hdone : KeepsFrame (Pure.pure none : Execution (Option Value)) := fun _ ↦ rfl
  cases instruction
  case ret => exact absurd rfl hreturn
  case call argumentCount =>
    intro activity final fault herror
    cases hcalled : call argumentCount.toNat activity with
    | ok value next =>
      rw [execute, bind_of_ok hcalled] at herror
      cases herror
    | error found next =>
      rw [execute, bind_of_error hcalled] at herror
      cases herror
      exact call_failsInside _ _ _ _ hcalled
  case register name =>
    exact ((Looks.nameOf _).keepsFrame.bind fun _ ↦ hpop.bind fun _ ↦ (Looks.decode _).keepsFrame.bind fun _ ↦
      (KeepsFrame.register _ _).bind fun _ ↦ hdone).failsInside
  case new header => exact ((KeepsFrame.construct header).bind fun _ ↦ hdone).failsInside
  case put name =>
    exact ((Looks.nameOf _).keepsFrame.bind fun _ ↦ hpop.bind fun _ ↦ hpop.bind fun _ ↦
      (Looks.objectOf _).keepsFrame.bind fun _ ↦ (KeepsFrame.writeField _ _ _).bind fun _ ↦ hdone).failsInside
  all_goals exact KeepsFrame.failsInside (Quiet.keepsFrame (quiet_execute trivial))

end Execution

/-! ### What comes of calls on a stack with a limit -/

/-- A fault at the place of the next operation of the innermost call. -/
def CallStack.locate (calls : CallStack) (fault : Fault) : LocatedFault :=
  ⟨fault, calls.current.routine.name, calls.current.routine.unit.lineAt calls.current.offset,
    calls.current.routine.unit.mnemonicAt calls.current.offset⟩

/-- What a machine answers that runs some calls on top of some words of a stack with a limit. -/
inductive CallStack.Stops (limit below : Nat) : CallStack → Except LocatedFault Value → World →
    ConstantTable → Prop where
  | finished {calls : CallStack} {value : Value} {world : World} {constants : ConstantTable}
      (hstep : calls.step = some (.finished value world constants)) :
      Stops limit below calls (.ok value) world constants
  | failed {calls : CallStack} {fault : Fault} {world : World} {constants : ConstantTable}
      (hstep : calls.step = some (.failed fault world constants)) :
      Stops limit below calls (.error (calls.locate fault)) world constants
  | overflows {calls later : CallStack} (hstep : calls.step = some (.next later))
      (hfull : limit < below + later.words) :
      Stops limit below calls (.error (calls.locate (.stackOverflow limit))) later.world later.constants
  | continues {calls later : CallStack} {result : Except LocatedFault Value} {world : World}
      {constants : ConstantTable} (hstep : calls.step = some (.next later))
      (hroom : below + later.words ≤ limit) (hlater : Stops limit below later result world constants) :
      Stops limit below calls result world constants

namespace CallStack

/-- Calls that return need no more words than before. -/
theorem words_leave_le {calls later : CallStack} {value : Value} (hleave : calls.leave value = .next later) :
    later.words ≤ calls.words := by
  unfold leave at hleave
  split at hleave
  case h_1 => cases hleave
  case h_2 caller callers hcallers =>
    obtain rfl := Progress.next.inj hleave
    simp only [words, hcallers, List.map_cons, List.sum_cons, Level.words, List.length_cons, recordSize]
    omega

/-- Calls only add constants until they stop. -/
theorem Stops.extends {limit below : Nat} {calls : CallStack} {result : Except LocatedFault Value} {world : World}
    {constants : ConstantTable} (hstops : calls.Stops limit below result world constants) :
    calls.constants.Extends constants := by
  induction hstops with
  | finished hstep | failed hstep | overflows hstep _ =>
    have hextends := step_extends hstep
    exact hextends
  | continues hstep _ _ ih => exact (step_extends hstep).trans ih

end CallStack

namespace Mirrors

variable {limit : Nat} {activity : Activity} {chain : FrameChain} {calls : CallStack}
  {registry : Registry} {known : List Value}

/-- A machine that mirrors calls and fails in an instruction other than a return fails at the place of the
calls. -/
theorem locate_eq (hmirrors : Mirrors limit activity chain calls) {final : Activity}
    (hframe : final.frame = activity.frame) (fault : Fault) :
    final.frame.locate fault activity.offset = calls.locate fault := by
  have hoffset : activity.offset = calls.current.offset :=
    hmirrors.realizes.offset.trans hmirrors.current.offset
  have hroutine : activity.frame.routine = calls.current.routine :=
    (congrArg Frame.routine hmirrors.realizes.frame).trans hmirrors.current.routine
  rw [hframe, Frame.locate, CallStack.locate, hoffset, hroutine]

/-- A step of a machine that fails leaves the running frame as it is, when the calls do not return or when
their return needs more words. -/
theorem frame_eq_of_error (hmirrors : Mirrors limit activity chain calls) (hvalid : calls.Valid registry known)
    (hroom : chain.contents.length ≤ 4294967296) {progress : Progress} (hstep : calls.step = some progress)
    (hprogress : ∀ (later : CallStack), progress = .next later → limit < chain.entry.length + later.words)
    (hfinished : ∀ (value : Value) (world : World) (constants : ConstantTable),
      progress ≠ .finished value world constants) {fault : Fault} {final : Activity}
    (herror : Execution.step activity = .error fault final) : final.frame = activity.frame := by
  obtain ⟨instruction, found, hinstruction, hfound, -, -⟩ := hmirrors.step hvalid hroom
  rw [hstep] at hfound
  obtain rfl := Option.some.inj hfound
  have hread : activity.frame.routine.unit.instructionAt activity.offset = .ok instruction := by
    rw [hmirrors.realizes.frame, hmirrors.realizes.offset]
    exact hinstruction
  rw [Execution.step_of_instructionAt hread] at herror
  refine Execution.execute_failsInside (fun hreturn ↦ ?_)
    { activity with offset := activity.offset + instruction.size } final fault herror
  -- the instruction is no return, because a return ends the run or needs no more words than there are
  have hleaves : ∃ value : Value, progress = calls.leave value := by
    have hoperation : calls.current.routine.unit.operationAt calls.constants calls.current.offset =
        some (.ret, calls.current.offset + Instruction.ret.size) := by
      unfold CodeUnit.operationAt
      rw [← hmirrors.current.routine, ← hmirrors.current.offset, hinstruction, hreturn]
      rfl
    unfold CallStack.step at hstep
    rw [hoperation] at hstep
    dsimp only [CallStack.perform] at hstep
    cases hoperands : (calls.withOffset (calls.current.offset + Instruction.ret.size)).current.operands with
    | nil =>
      rw [hoperands] at hstep
      cases hstep
    | cons value rest =>
      rw [hoperands] at hstep
      exact ⟨value, (Option.some.inj hstep).symm⟩
  obtain ⟨value, rfl⟩ := hleaves
  cases hleave : calls.leave value with
  | next later =>
    have hless := hprogress later hleave
    have hmore := CallStack.words_leave_le hleave
    have hfits := hmirrors.words_le
    omega
  | finished found world constants => exact hfinished _ _ _ hleave
  | failed found world constants =>
    unfold CallStack.leave at hleave
    split at hleave <;> cases hleave

/-- A machine that runs some calls answers what they answer on its stack, after no more steps than the calls
have code left to weigh, as long as a word can number the words on its stack. -/
theorem exists_stop (hmirrors : Mirrors limit activity chain calls) (hvalid : calls.Valid registry known)
    {steps : Nat} (hsteps : calls.rank limit < steps) :
    (∃ (result : Except LocatedFault Value) (machine : Machine) (world : World) (constants : ConstantTable),
        activity.run steps = some (result, machine) ∧
        calls.Stops limit chain.entry.length result world constants ∧
        (Machine.cutBack chain.entry.length chain.hostBase (result, machine)).2.Realizes world constants limit
          chain.entry chain.hostBase) ∨
      4294967296 < limit ∧ activity.Crowds := by
  induction steps generalizing activity chain calls with
  | zero => exact absurd hsteps (Nat.not_lt_zero _)
  | succ steps ih =>
    by_cases hroom : chain.contents.length ≤ 4294967296
    swap
    · have hlong := Nat.lt_of_not_le hroom
      rw [hmirrors.length_contents] at hlong
      refine Or.inr ⟨Nat.lt_of_lt_of_le hlong hmirrors.words_le, activity, .refl, ?_⟩
      rw [hmirrors.realizes.top_eq]
      exact Nat.lt_of_not_le hroom
    obtain ⟨instruction, progress, -, hstep, hprogress, hcorresponds⟩ := hmirrors.step hvalid hroom
    have hframe := fun hnext hfinished ↦ @frame_eq_of_error limit activity chain calls registry known
      hmirrors hvalid hroom progress hstep hnext hfinished
    -- below the running frame are the words from before the host entered
    obtain ⟨between, hbetween⟩ := FrameChain.exists_stacked_eq chain.entry chain.hostBase chain.callers
    have hlower : (chain.withOffset (chain.current.offset + instruction.size)).lower =
        chain.entry ++ between := hbetween
    unfold Activity.run
    dsimp only
    cases progress with
    | next later =>
      rcases hcorresponds with ⟨next, laterChain, hok, hlater, hmoves⟩ | ⟨final, hfull, hends, hwords⟩
      · rw [hok]
        obtain ⟨hentry, hbase⟩ := hmoves.entry_eq
        simp only [FrameChain.withOffset] at hentry hbase
        have hfits := hlater.words_le
        have hdepth : later.callers.length < limit :=
          Nat.lt_of_lt_of_le later.callers_length_lt_words (Nat.le_trans (Nat.le_add_left _ _) hfits)
        have hless := hvalid.rank_lt hprogress (hvalid.advances hstep) hdepth
        rcases ih hlater hprogress (by omega) with
          ⟨result, machine, world, constants, hrun, hstops, hrealizes⟩ | ⟨hlarge, hcrowds⟩
        · rw [hentry] at hstops hfits hrealizes
          rw [hbase] at hrealizes
          exact Or.inl ⟨result, machine, world, constants, hrun, .continues hstep hfits hstops, hrealizes⟩
        · exact Or.inr ⟨hlarge, hcrowds.of_continues hok⟩
      · rw [hfull]
        rw [hlower] at hends
        have hkept := hframe (fun other hother ↦ by cases hother; exact hwords) (by rintro _ _ _ ⟨⟩) hfull
        refine Or.inl ⟨_, _, _, _, rfl, ?_, hends.lower.unwind _⟩
        rw [hmirrors.locate_eq hkept]
        exact .overflows hstep hwords
    | finished value world constants =>
      obtain ⟨final, frame, offset, hok, -, hrealizes⟩ := hcorresponds
      rw [hok]
      exact Or.inl ⟨_, _, _, _, rfl, .finished hstep, hrealizes.rests⟩
    | failed fault world constants =>
      obtain ⟨final, herror, hends⟩ := hcorresponds
      rw [herror]
      rw [hlower] at hends
      have hkept := hframe (by rintro _ ⟨⟩) (by rintro _ _ _ ⟨⟩) herror
      refine Or.inl ⟨_, _, _, _, rfl, ?_, hends.lower.unwind _⟩
      rw [hmirrors.locate_eq hkept]
      exact .failed hstep

end Mirrors

/-! ### Whole calls of the host -/

/-- What a machine answers when the host calls a routine on top of some words of a stack with a limit. -/
inductive Routine.Answers (routine : Routine) (limit below : Nat) (world : World) (constants : ConstantTable)
    (receiver : Value) (arguments : List Value) : Except LocatedFault Value → World → ConstantTable → Prop where
  | refused {fault : Fault} {final : ConstantTable}
      (hrefuses : routine.Refuses limit below arguments.length fault) :
      Answers routine limit below world constants receiver arguments (.error (.atEntry fault routine.name)) world
        final
  | runs {result : Except LocatedFault Value} {later : World} {final : ConstantTable}
      (harity : arguments.length + 1 = routine.unit.parameterCount)
      (hroom : below + (arguments.length + 2) ≤ limit)
      (hframe : below + (CallStack.entered world (constants.box (.function (.compiled routine))).2 routine receiver
        arguments).words ≤ limit)
      (hstops : (CallStack.entered world (constants.box (.function (.compiled routine))).2 routine receiver
        arguments).Stops limit below result later final) :
      Answers routine limit below world constants receiver arguments result later final

/-- What valid calls leave behind when they stop is valid. -/
theorem CallStack.Stops.valid {registry : Registry} {known : List Value} {limit below : Nat} {calls : CallStack}
    {result : Except LocatedFault Value} {world : World} {constants : ConstantTable}
    (hstops : calls.Stops limit below result world constants) (hvalid : calls.Valid registry known) :
    world.Valid registry known ∧ constants.Valid registry ∧ registry.Verified constants ∧
      ∀ value : Value, result = .ok value → value.Valid registry world.store.records := by
  induction hstops with
  | finished hstep =>
    obtain ⟨progress, hfound, hprogress⟩ := hvalid.step
    obtain rfl := Option.some.inj (hstep.symm.trans hfound)
    refine ⟨hprogress.1, hprogress.2.1, hprogress.2.2.1, fun found hsame ↦ ?_⟩
    obtain rfl := Except.ok.inj hsame
    exact hprogress.2.2.2
  | failed hstep =>
    obtain ⟨progress, hfound, hprogress⟩ := hvalid.step
    obtain rfl := Option.some.inj (hstep.symm.trans hfound)
    exact ⟨hprogress.1, hprogress.2.1, hprogress.2.2.1, by rintro _ ⟨⟩⟩
  | overflows hstep _ =>
    obtain ⟨progress, hfound, hprogress⟩ := hvalid.step
    obtain rfl := Option.some.inj (hstep.symm.trans hfound)
    exact ⟨hprogress.world, hprogress.constants, hprogress.code, by rintro _ ⟨⟩⟩
  | continues hstep _ _ ih =>
    obtain ⟨progress, hfound, hprogress⟩ := hvalid.step
    obtain rfl := Option.some.inj (hstep.symm.trans hfound)
    exact ih hprogress

/-- A machine at rest answers a call of a compiled function as the calls do on its stack, and is at rest
again. -/
theorem Machine.Rests.exists_answer {machine : Machine} {registry : Registry} {known : List Value}
    {limit base : Nat} {contents : List Word} {world : World} {constants : ConstantTable}
    (hrests : machine.Rests registry known limit contents base world constants) (hbase : base < 4294967296)
    {routine : Routine} (hroutine : registry.functions routine.identity = some (.compiled routine))
    {receiver : Value} {arguments : List Value}
    (hvalues : ∀ value ∈ receiver :: arguments, value.Valid registry world.store.records)
    (hsize : (constants.box (.function (.compiled routine))).2.size ≤ Word.indexLimit) :
    (∃ (result : Except LocatedFault Value) (later : Machine) (laterWorld : World) (final : ConstantTable),
        (∀ steps : Nat, CallStack.rankBase ^ (limit + 1) ≤ steps →
          machine.invokeRoutine steps routine receiver arguments = some (result, later)) ∧
        routine.Answers limit contents.length world constants receiver arguments result laterWorld final ∧
        later.Rests registry known limit contents base laterWorld final ∧
        (constants.box (.function (.compiled routine))).2.Extends final ∧
        ∀ value : Value, result = .ok value → value.Valid registry laterWorld.store.records) ∨
      4294967296 < limit ∧
        ∃ start : Activity, machine.Enters routine receiver arguments start ∧ start.Crowds := by
  have htop : machine.stack.top = contents.length := hrests.realizes.top_eq
  have hhostBase : machine.stack.base = base := hrests.realizes.base
  rcases hrests.enters hbase hroutine hvalues hsize with
    ⟨start, chain, henters, ⟨harity, hroom⟩, rfl, rfl, hmirrors, hvalid⟩ |
    ⟨-, fault, later, final, hrefused, hlater, hextends, hrefuses⟩
  · rcases hmirrors.exists_stop hvalid (hvalid.rank_lt_of_callers rfl limit) with
      ⟨result, later, laterWorld, final, hrun, hstops, hrealizes⟩ | ⟨hlarge, hcrowds⟩
    · obtain ⟨hworld, hconstants, hcode, hvalue⟩ := hstops.valid hvalid
      have hentered := (constants.box (.function (.compiled routine))).2.carryAll_extends (receiver :: arguments)
      refine Or.inl ⟨result, (Machine.cutBack machine.stack.top machine.stack.base (result, later)).2,
        laterWorld, final, fun steps hsteps ↦ ?_, .runs harity hroom hmirrors.words_le hstops, ?_,
        hentered.trans hstops.extends, hvalue⟩
      · rw [henters.invokeRoutine_eq, Activity.run_mono hsteps hrun]
        cases result <;> rfl
      · rw [htop, hhostBase]
        exact ⟨hrealizes, hworld, hconstants, hcode⟩
    · exact Or.inr ⟨hlarge, start, henters, hcrowds⟩
  · exact Or.inl ⟨_, later, world, final, fun steps _ ↦ hrefused steps, .refused hrefuses, hlater, hextends,
      by rintro _ ⟨⟩⟩

end ScriptMachine
