import ScriptMachine.Proofs.SessionActivities

/-!
# The protocol of calls

While the code of a session runs, the stack is a chain of frames (`Activity.Framed`): the word of a function,
one cell per slot, the record of the caller, and the operands, one frame on top of the other. An instruction
leaves the words below the running frame alone (`Tracked.take_contents_eq`), and a callee that returns leaves
its caller as it was before the call (`Activity.Resumes`).
-/

set_option autoImplicit false
set_option relaxedAutoImplicit false

namespace ScriptMachine

/-! ### Chains of frames on the stack -/

/-- The words in use on the stack are a chain of frames, of which the topmost one is running. Each frame has
one cell per slot, and its word leads to its function. Every caller waits behind a call instruction of its own
code, and the record above it holds its base and its offset in full, which no other offset looks like that
ends the call of the host. -/
structure Activity.Framed (activity : Activity) (chain : FrameChain) : Prop where
  contents : activity.machine.stack.contents = chain.contents
  base : activity.machine.stack.base = chain.base
  frame : activity.frame = chain.current.frame
  offset : activity.offset = chain.current.offset
  width : ∀ segment ∈ chain.current :: chain.callers,
    segment.locals.length = segment.frame.routine.unit.slotCount
  word : ∀ segment ∈ chain.current :: chain.callers,
    activity.machine.decode segment.frame.word = .ok (.function (.compiled segment.frame.routine))
  awaits : ∀ caller ∈ chain.callers, caller.AwaitsCall
  savedBase : ∀ below : List Segment, below <:+ chain.callers →
    (UInt32.ofNat (FrameChain.baseOf chain.entry chain.hostBase below)).toNat =
      FrameChain.baseOf chain.entry chain.hostBase below
  savedOffset : ∀ caller ∈ chain.callers, (UInt32.ofNat caller.offset).toNat = caller.offset ∧
    (⟨UInt32.ofNat caller.offset⟩ : Word) ≠ hostReturn

namespace FrameChain

/-- The words of some frames begin with those of the frames below. -/
theorem stacked_prefix_of_suffix (entry : List Word) (hostBase : Nat) {below segments : List Segment}
    (hsuffix : below <:+ segments) : stacked entry hostBase below <+: stacked entry hostBase segments := by
  induction segments with
  | nil => exact List.suffix_nil.mp hsuffix ▸ List.prefix_rfl
  | cons segment callers ih =>
    rcases List.suffix_cons_iff.mp hsuffix with rfl | hcallers
    · exact List.prefix_rfl
    · refine (ih hcallers).trans ?_
      rw [stacked, List.append_assoc, List.append_assoc]
      exact List.prefix_append _ _

/-- The base of a frame below others counts fewer words than there are. -/
theorem baseOf_lt_length_contents (chain : FrameChain) (hhost : chain.hostBase < chain.contents.length)
    {below : List Segment} (hsuffix : below <:+ chain.callers) :
    baseOf chain.entry chain.hostBase below < chain.contents.length := by
  cases below with
  | nil => exact hhost
  | cons segment callers =>
    have hprefix := stacked_prefix_of_suffix chain.entry chain.hostBase
      (hsuffix.trans (List.suffix_cons chain.current chain.callers))
    exact Nat.lt_of_lt_of_le (baseOf_lt_length_stacked _ _ _ _) hprefix.length_le

/-- An instruction leaves the words below the running frame at the bottom of the stack. -/
theorem Moves.lower_prefix {chain later : FrameChain} (hmoves : chain.Moves later) :
    chain.lower <+: later.contents := by
  cases hmoves with
  | stays offset locals operands =>
    exact stacked_prefix_of_suffix _ _ (List.suffix_cons _ _)
  | calls frame locals arguments rest receiver =>
    exact stacked_prefix_of_suffix _ _ ((List.suffix_cons _ _).trans (List.suffix_cons _ _))
  | returns entry hostBase current caller callers result rest =>
    refine ⟨[result], ?_⟩
    simp only [lower, contents, stacked, List.reverse_cons, List.append_assoc]
    cases callers <;> rfl

end FrameChain

/-- Every frame of a chain holds one of the calls. -/
theorem Mirrors.exists_holds {limit : Nat} {activity : Activity} {chain : FrameChain} {calls : CallStack}
    (hmirrors : Mirrors limit activity chain calls) {segment : Segment}
    (hmem : segment ∈ chain.current :: chain.callers) :
    ∃ level : Level, segment.Holds calls.constants calls.world.store.records level := by
  rcases List.mem_cons.mp hmem with rfl | hcaller
  · exact ⟨_, hmirrors.current⟩
  · obtain ⟨before, after, hsplit⟩ := List.append_of_mem hcaller
    have hcallers := hmirrors.callers.flip
    rw [hsplit] at hcallers
    obtain ⟨_, level, _, -, -, hlevel, -⟩ := exists_split_of_forall₂ hcallers
    exact ⟨level, hlevel⟩

namespace Tracked

variable {limit : Nat} {registry : Registry} {known : List Value} {activity : Activity}
  {chain : FrameChain} {calls : CallStack}

/-- The stack of a machine that mirrors valid calls is a chain of frames. -/
theorem framed (htracked : Tracked limit registry known activity chain calls) (hhost : chain.hostBase = 0)
    (hawaits : ∀ caller ∈ chain.callers, caller.AwaitsCall) : activity.Framed chain := by
  have hrealizes := htracked.mirrors.realizes
  have hheap : activity.machine.heap.Holds calls.constants calls.world.store := hrealizes.heap
  have hconstants : activity.machine.constants = calls.constants := hrealizes.constants
  have hbase : ∀ below : List Segment, below <:+ chain.callers →
      FrameChain.baseOf chain.entry chain.hostBase below < 4294967296 := by
    intro below hsuffix
    refine Nat.lt_of_lt_of_le (chain.baseOf_lt_length_contents ?_ hsuffix) htracked.room
    rw [hhost, chain.contents_eq, FrameChain.floor]
    simp only [List.length_append, List.length_cons]
    omega
  refine ⟨hrealizes.contents, hrealizes.base, hrealizes.frame, hrealizes.offset,
    fun segment hmem ↦ ?_, fun segment hmem ↦ ?_, hawaits,
    fun below hsuffix ↦ UInt32.toNat_ofNat_of_lt' (hbase below hsuffix),
    fun caller hmem ↦ (htracked.mirrors.resumable caller hmem).offset_word⟩
  · obtain ⟨level, hlevel⟩ := htracked.mirrors.exists_holds hmem
    exact hlevel.width
  · obtain ⟨level, hlevel⟩ := htracked.mirrors.exists_holds hmem
    rw [Machine.decode, hconstants]
    exact hheap.decode (ConstantTable.value?_of_constant? hlevel.word)

/-- Whatever comes of an instruction, the words below the word of the running function stay what they
are. -/
theorem take_contents_eq (htracked : Tracked limit registry known activity chain calls) {next : Activity}
    (hstep : (∃ value : Option Value, Execution.step activity = .ok value next) ∨
      ∃ fault : Fault, Execution.step activity = .error fault next) :
    next.machine.stack.contents.take (activity.machine.stack.base - 1) =
      activity.machine.stack.contents.take (activity.machine.stack.base - 1) := by
  have hrealizes := htracked.mirrors.realizes
  have hbase : activity.machine.stack.base - 1 = chain.lower.length := by
    rw [show activity.machine.stack.base = chain.base from hrealizes.base, chain.base_eq,
      Nat.add_sub_cancel]
  have hbefore : chain.lower <+: activity.machine.stack.contents := by
    rw [show activity.machine.stack.contents = chain.contents from hrealizes.contents]
    exact FrameChain.stacked_prefix_of_suffix _ _ (List.suffix_cons _ _)
  have hafter : chain.lower <+: next.machine.stack.contents := by
    obtain ⟨instruction, progress, -, -, -, hcorresponds⟩ := htracked.step
    have hends : ∀ {world : World} {constants : ConstantTable}, EndsAt limit next chain.lower world constants →
        chain.lower <+: next.machine.stack.contents := by
      rintro world constants ⟨snapshot, above, hnext, -, -, -, hsplit⟩
      exact ⟨above, hsplit.symm.trans hnext.contents.symm⟩
    -- every way in which an instruction can end tells what is left on the stack
    cases progress with
    | next nextCalls =>
      rcases hcorresponds with ⟨after, later, hresult, hlater, hmoves⟩ | ⟨final, hresult, hfinal, -⟩
      · obtain rfl : after = next := by
          rcases hstep with ⟨value, hvalue⟩ | ⟨fault, hfault⟩
          · exact (EStateM.Result.ok.inj (hresult.symm.trans hvalue)).2
          · cases hresult.symm.trans hfault
        rw [show after.machine.stack.contents = later.contents from hlater.realizes.contents]
        exact hmoves.lower_prefix
      · obtain rfl : final = next := by
          rcases hstep with ⟨value, hvalue⟩ | ⟨fault, hfault⟩
          · cases hresult.symm.trans hvalue
          · exact (EStateM.Result.error.inj (hresult.symm.trans hfault)).2
        exact hends hfinal
    | finished value world constants =>
      obtain ⟨final, frame, offset, hresult, hcallers, hfinal⟩ := hcorresponds
      obtain rfl : final = next := by
        rcases hstep with ⟨value, hvalue⟩ | ⟨fault, hfault⟩
        · exact (EStateM.Result.ok.inj (hresult.symm.trans hvalue)).2
        · cases hresult.symm.trans hfault
      have hlower : chain.lower = chain.entry := by
        rw [FrameChain.lower, show chain.callers = [] from hcallers, FrameChain.stacked]
      exact ⟨[], (List.append_nil _).trans (hlower.trans hfinal.contents.symm)⟩
    | failed fault world constants =>
      obtain ⟨final, hresult, hfinal⟩ := hcorresponds
      obtain rfl : final = next := by
        rcases hstep with ⟨value, hvalue⟩ | ⟨fault, hfault⟩
        · cases hresult.symm.trans hvalue
        · exact (EStateM.Result.error.inj (hresult.symm.trans hfault)).2
      exact hends hfinal
  rw [hbase, List.prefix_iff_eq_take.mp hbefore |>.symm, List.prefix_iff_eq_take.mp hafter |>.symm]

end Tracked

/-! ### Sessions -/

/-- While the code of a command of a session runs, the stack is a chain of frames above the words from before,
of which no instruction changes those below the running frame. A callee that returns to a caller leaves it as
it was before the call, with the result in place of function, receiver and arguments. -/
theorem Session.keeps_frames {engine : Engine} {known : List Value} {closures : List Closure}
    {command : Command} (hsession : Session engine known closures) (hadmissible : command.Admissible known)
    (haddresses : engine.Addresses known command) (hsmall : engine.StaysSmall command) :
    ∀ activity : Activity, engine.Visits command activity →
      (∃ chain : FrameChain, activity.Framed chain ∧ chain.entry = engine.machine.stack.contents ∧
          chain.hostBase = engine.machine.stack.base) ∧
        (∀ next : Activity, (∃ value : Option Value, Execution.step activity = .ok value next) ∨
            (∃ fault : Fault, Execution.step activity = .error fault next) →
          next.machine.stack.contents.take (activity.machine.stack.base - 1) =
            activity.machine.stack.contents.take (activity.machine.stack.base - 1)) ∧
        ∀ entered last next : Activity, activity.Calls entered → entered.Spans last → last.Leaves next →
          ∃ (result : Word) (words : List Word), last.machine.stack.contents = words ++ [result] ∧
            activity.Resumes next result := by
  intro activity hvisits
  have hconsistent := hsession.consistent
  obtain ⟨registry, chain, calls, htracked, hentry, hhost, hawaits⟩ :=
    hconsistent.exists_tracked hadmissible haddresses hsmall hvisits
  obtain ⟨_, world, hmachine, -⟩ := hconsistent
  refine ⟨⟨chain, htracked.framed hhost hawaits, ?_, ?_⟩, fun next hstep ↦ htracked.take_contents_eq hstep,
    fun entered last next hcalls hspans hleaves ↦ htracked.resumes hcalls hspans hleaves⟩
  · rw [hentry, hmachine.realizes.contents]
  · rw [hhost, hmachine.realizes.base]

/-- The first command of a fresh engine keeps its frames on a stack that was empty. -/
theorem Session.keeps_frames_cyclic :
    Session Engine.fresh [] [] ∧ (Command.eval Script.cyclic).Admissible [] ∧
      Engine.fresh.Addresses [] (.eval Script.cyclic) ∧ Engine.fresh.StaysSmall (.eval Script.cyclic) ∧
      ∀ activity : Activity, Engine.fresh.Visits (.eval Script.cyclic) activity →
        ∃ chain : FrameChain, activity.Framed chain ∧
          chain.entry = Engine.fresh.machine.stack.contents := by
  have hsession : Session Engine.fresh [] [] := .standard _ _ _
  have hadmissible : (Command.eval Script.cyclic).Admissible [] := trivial
  refine ⟨hsession, hadmissible, Engine.addresses_cyclic, Engine.staysSmall_fresh _, fun activity hvisits ↦ ?_⟩
  obtain ⟨⟨chain, hframed, hentry, -⟩, -⟩ := hsession.keeps_frames hadmissible Engine.addresses_cyclic
    (Engine.staysSmall_fresh _) activity hvisits
  exact ⟨chain, hframed, hentry⟩

end ScriptMachine
