import ScriptMachine.Proofs.Runs

/-!
# Activations

The instructions between the beginning of a call and its end, without those of the calls inside it, are one
activation. `Activity.Calls` and `Activity.Leaves` are the instructions at which activations begin and end,
`Activity.Spans` leads from one activity to another of the same activation, with whole calls in between, and
`Activity.Proceeds` leads to the next one.

On a machine that mirrors valid calls (`Tracked`) every activation keeps its frame and leaves the frames of
its callers alone (`Tracked.of_spans`). So a return goes back behind the call where the activation began
(`Tracked.resumes`), and an activation goes on further behind in its own code (`Tracked.offset_lt`). Every
activity of a run belongs to an activation in this sense (`Tracked.nests_of_reaches`).
-/

set_option autoImplicit false
set_option relaxedAutoImplicit false

namespace ScriptMachine

/-! ### Instructions that begin and end calls -/

namespace Activity

/-- The compiled function that the next instruction calls. -/
def callee? (activity : Activity) : Option Routine :=
  match activity.frame.routine.unit.instructionAt activity.offset with
  | .ok (.call argumentCount) =>
    let position := activity.machine.stack.top - argumentCount.toNat - 2
    match activity.machine.decode (activity.machine.stack.cell position) with
    | .ok (.function (.compiled routine)) => some routine
    | _ => none
  | _ => none

/-- The next instruction is a return. -/
def Returns (activity : Activity) : Prop :=
  activity.frame.routine.unit.instructionAt activity.offset = .ok .ret

/-- An instruction stays within its activation. -/
structure Stays (activity next : Activity) : Prop where
  callee : activity.callee? = none
  returns : ¬ activity.Returns
  continues : activity.Continues next

/-- An instruction calls a compiled function, whose activation begins. -/
structure Calls (caller entered : Activity) : Prop where
  callee : caller.callee?.isSome
  continues : caller.Continues entered

/-- An instruction returns to a caller, and its activation ends. -/
structure Leaves (last resumed : Activity) : Prop where
  returns : last.Returns
  continues : last.Continues resumed

/-- Some instructions of one activation lead to another activity of it, with whole calls in between. -/
inductive Spans : Activity → Activity → Prop where
  | refl (activity : Activity) : Spans activity activity
  | stays {activity next later : Activity} (hstays : activity.Stays next) (hrest : Spans next later) :
      Spans activity later
  | calls {caller entered last resumed later : Activity} (hcalls : caller.Calls entered)
      (hbody : Spans entered last) (hleaves : last.Leaves resumed) (hrest : Spans resumed later) :
      Spans caller later

/-- One instruction, with all of the call that it may begin, leads to the next activity of the same
activation. -/
inductive Proceeds (activity next : Activity) : Prop where
  | stays (hstays : activity.Stays next)
  | returns {entered last : Activity} (hcalls : activity.Calls entered) (hbody : entered.Spans last)
      (hleaves : last.Leaves next)

/-- An activity belongs to the activation that began the run, or to one that was called from there, or from
an activation that was called from there, and so on. -/
inductive Nests (start : Activity) : Activity → Prop where
  | outermost {activity : Activity} (hspans : start.Spans activity) : Nests start activity
  | inner {caller entered activity : Activity} (hcaller : Nests start caller)
      (hcalls : caller.Calls entered) (hspans : entered.Spans activity) : Nests start activity

/-- An activation goes on from where it has come to. -/
theorem Spans.trans {first second third : Activity} (hfirst : first.Spans second)
    (hsecond : second.Spans third) : first.Spans third := by
  induction hfirst with
  | refl => exact hsecond
  | stays hstays _ ih => exact .stays hstays (ih hsecond)
  | calls hcalls hbody hleaves _ _ ih => exact .calls hcalls hbody hleaves (ih hsecond)

/-- All activities of an activation are reached. -/
theorem Spans.reaches {first last : Activity} (hspans : first.Spans last) : first.Reaches last := by
  induction hspans with
  | refl => exact .refl
  | stays hstays _ ih => exact .head hstays.continues ih
  | calls hcalls _ hleaves _ hbody ih =>
    exact .head hcalls.continues (hbody.trans (.head hleaves.continues ih))

end Activity

/-! ### Machines that mirror valid calls -/

/-- A running machine mirrors valid calls, and words can number the words on its stack at all times. -/
structure Tracked (limit : Nat) (registry : Registry) (known : List Value) (activity : Activity)
    (chain : FrameChain) (calls : CallStack) : Prop where
  mirrors : Mirrors limit activity chain calls
  valid : calls.Valid registry known
  roomy : 4294967296 < limit → ¬ activity.Crowds

namespace Tracked

variable {limit : Nat} {registry : Registry} {known : List Value} {activity next : Activity}
  {chain : FrameChain} {calls : CallStack}

/-- Words can number the words on the stack. -/
theorem room (htracked : Tracked limit registry known activity chain calls) :
    chain.contents.length ≤ 4294967296 := by
  have htop : activity.machine.stack.top = chain.contents.length := htracked.mirrors.realizes.top_eq
  have hlimit : chain.contents.length ≤ limit := htracked.mirrors.realizes.length_le_limit
  by_contra hlong
  have hlarge : 4294967296 < limit := Nat.lt_of_lt_of_le (Nat.lt_of_not_le hlong) hlimit
  exact htracked.roomy hlarge ⟨activity, .refl, by omega⟩

/-- The machine reads the instruction of the next operation. -/
theorem exists_instruction (htracked : Tracked limit registry known activity chain calls) :
    ∃ (instruction : Instruction) (operation : Operation),
      activity.frame.routine.unit.instructionAt activity.offset = .ok instruction ∧
      instruction.operation? calls.constants = some operation ∧
      calls.next? = some (operation, calls.current.offset + instruction.size) ∧
      operation.pops ≤ calls.current.operands.length ∧
      ∀ slot ∈ operation.slot?, slot < activity.frame.routine.unit.slotCount := by
  obtain @⟨_, _, behind, operation, hoperation, hpops, hslot, -, -⟩ := htracked.valid.safe
  obtain ⟨instruction, hinstruction, hresolved, rfl⟩ :=
    CodeUnit.exists_instruction_of_operationAt hoperation
  have hframe : activity.frame = chain.current.frame := htracked.mirrors.realizes.frame
  have hoffset : activity.offset = chain.current.offset := htracked.mirrors.realizes.offset
  refine ⟨instruction, operation, ?_, hresolved, hoperation, hpops, ?_⟩
  · rw [hframe, hoffset, htracked.mirrors.current.routine, htracked.mirrors.current.offset]
    exact hinstruction
  · rw [hframe, htracked.mirrors.current.routine]
    exact hslot

/-- The machine calls the function that the calls do. -/
theorem callee?_eq (htracked : Tracked limit registry known activity chain calls) :
    activity.callee? = calls.callee? := by
  obtain ⟨instruction, operation, hinstruction, hresolved, hnext, hpops, -⟩ := htracked.exists_instruction
  unfold Activity.callee? CallStack.callee?
  rw [hinstruction, hnext]
  cases instruction <;> simp only [Instruction.operation?, Option.map_eq_some_iff] at hresolved
  case call argumentCount =>
    obtain rfl := Option.some.inj hresolved
    obtain ⟨receiver, callee, rest, hdrop⟩ := Operation.exists_drop_of_call hpops
    obtain ⟨arguments, receiverWord, calleeWord, words, hsplit, hcount, -, -, hcallee, -⟩ :=
      htracked.mirrors.exists_call hdrop
    have hview := htracked.mirrors.view
    obtain ⟨htop, hcell, -, -⟩ := Mirrors.call_cells hview hsplit
    have hposition : activity.machine.stack.top - argumentCount.toNat - 2 =
        (chain.floor ++ words.reverse).length := by omega
    have hdecoded : activity.machine.decode calleeWord = .ok callee := by
      rw [Machine.decode, hview.constants]
      exact hview.heap.decode hcallee
    have hoperand : calls.current.operands[argumentCount.toNat + 1]? = some callee := by
      rw [← List.getElem?_drop, hdrop]
      rfl
    dsimp only
    rw [hposition, hcell, hdecoded, hoperand]
    rcases callee with _ | _ | _ | _ | ⟨_ | _⟩ | _ | _ | _ <;> rfl
  case constant | lookup | register | new | get | put =>
    obtain ⟨_, -, rfl⟩ := hresolved
    rfl
  all_goals
    obtain rfl := Option.some.inj hresolved
    rfl

/-- The machine returns when the calls do. -/
theorem returns_iff (htracked : Tracked limit registry known activity chain calls) :
    activity.Returns ↔ calls.Returns := by
  obtain ⟨instruction, operation, hinstruction, hresolved, hnext, -, -⟩ := htracked.exists_instruction
  unfold Activity.Returns CallStack.Returns
  rw [hinstruction, hnext]
  constructor
  · intro hsame
    obtain rfl := Except.ok.inj hsame
    obtain rfl := Option.some.inj hresolved
    exact ⟨_, rfl⟩
  · rintro ⟨behind, hsame⟩
    obtain ⟨rfl, -⟩ := Prod.mk.inj (Option.some.inj hsame)
    cases instruction <;> simp only [Instruction.operation?, Option.map_eq_some_iff] at hresolved
    case ret => rfl
    case constant | lookup | register | new | get | put =>
      obtain ⟨_, -, hother⟩ := hresolved
      cases hother
    all_goals cases hresolved

/-- A step of the machine is one of the calls. -/
theorem step (htracked : Tracked limit registry known activity chain calls) :
    ∃ (instruction : Instruction) (progress : Progress),
      chain.current.frame.routine.unit.instructionAt chain.current.offset = .ok instruction ∧
      calls.step = some progress ∧ progress.Valid registry known ∧
      Corresponds limit (chain.withOffset (chain.current.offset + instruction.size))
        (Execution.step activity) progress :=
  htracked.mirrors.step htracked.valid htracked.room

/-- A machine that goes on still mirrors valid calls. -/
theorem of_continues (htracked : Tracked limit registry known activity chain calls)
    (hcontinues : activity.Continues next) :
    ∃ (instruction : Instruction) (later : FrameChain) (nextCalls : CallStack),
      chain.current.frame.routine.unit.instructionAt chain.current.offset = .ok instruction ∧
      Tracked limit registry known next later nextCalls ∧ calls.Continues nextCalls ∧
      calls.Advances nextCalls ∧
      (chain.withOffset (chain.current.offset + instruction.size)).Moves later := by
  obtain ⟨instruction, progress, hinstruction, hstep, hprogress, hcorresponds⟩ := htracked.step
  unfold Activity.Continues at hcontinues
  rw [hcontinues] at hcorresponds
  cases progress with
  | next nextCalls =>
    rcases hcorresponds with ⟨found, later, hok, hmirrors, hmoves⟩ | ⟨final, hfull, -⟩
    · cases hok
      exact ⟨instruction, later, nextCalls, hinstruction,
        ⟨hmirrors, hprogress, fun hlarge hcrowds ↦
          htracked.roomy hlarge (hcrowds.of_continues hcontinues)⟩,
        hstep, htracked.valid.advances hstep, hmoves⟩
    · cases hfull
  | finished value world constants =>
    obtain ⟨final, frame, offset, hok, -⟩ := hcorresponds
    cases hok
  | failed fault world constants =>
    obtain ⟨final, herror, -⟩ := hcorresponds
    cases herror

end Tracked

/-! ### What became of a chain of frames -/

namespace FrameChain.Moves

variable {chain later : FrameChain}

/-- When there are as many frames as before, only the running one has changed. -/
theorem eq_of_stays (hmoves : chain.Moves later) (hcount : later.callers.length = chain.callers.length) :
    ∃ (offset : Nat) (locals operands : List Word), locals.length = chain.current.locals.length ∧
      later = { chain with current := ⟨chain.current.frame, offset, locals, operands⟩ } := by
  cases hmoves with
  | stays _ offset locals operands hwidth => exact ⟨offset, locals, operands, hwidth, rfl⟩
  | calls _ frame locals arguments rest receiver hoperands =>
    simp only [List.length_cons] at hcount
    omega
  | returns entry hostBase current caller callers result rest hoperands =>
    simp only [List.length_cons] at hcount
    omega

/-- When there is one frame more, it has taken function, receiver and arguments from the one below. -/
theorem eq_of_calls (hmoves : chain.Moves later)
    (hcount : later.callers.length = chain.callers.length + 1) :
    ∃ (frame : Frame) (locals arguments rest : List Word) (receiver : Word),
      chain.current.operands = arguments ++ receiver :: frame.word :: rest ∧
      later = ⟨chain.entry, chain.hostBase, ⟨frame, 0, locals, []⟩,
        { chain.current with operands := rest } :: chain.callers⟩ := by
  cases hmoves with
  | stays _ offset locals operands hwidth => exact absurd hcount (by simp)
  | calls _ frame locals arguments rest receiver hoperands =>
    exact ⟨frame, locals, arguments, rest, receiver, hoperands, rfl⟩
  | returns entry hostBase current caller callers result rest hoperands =>
    simp only [List.length_cons] at hcount
    omega

/-- When there is one frame less, the one below has got the result. -/
theorem eq_of_returns (hmoves : chain.Moves later)
    (hcount : chain.callers.length = later.callers.length + 1) :
    ∃ (caller : Segment) (callers : List Segment) (result : Word) (rest : List Word),
      chain.callers = caller :: callers ∧ chain.current.operands = result :: rest ∧
      later = ⟨chain.entry, chain.hostBase, { caller with operands := result :: caller.operands },
        callers⟩ := by
  cases hmoves with
  | stays _ offset locals operands hwidth => exact absurd hcount (by simp)
  | calls _ frame locals arguments rest receiver hoperands =>
    simp only [List.length_cons] at hcount
    omega
  | returns entry hostBase current caller callers result rest hoperands =>
    exact ⟨caller, callers, result, rest, rfl, hoperands, rfl⟩

end FrameChain.Moves

/-! ### Activations keep their frames -/

/-- Two chains of frames belong to one activation: the frames below are the same, and the running one has
gone on in its own code, with as many variables. -/
structure FrameChain.SameActivation (chain later : FrameChain) : Prop where
  entry : later.entry = chain.entry
  hostBase : later.hostBase = chain.hostBase
  callers : later.callers = chain.callers
  frame : later.current.frame = chain.current.frame
  width : later.current.locals.length = chain.current.locals.length
  offset : chain.current.offset ≤ later.current.offset

theorem FrameChain.SameActivation.refl (chain : FrameChain) : chain.SameActivation chain :=
  ⟨rfl, rfl, rfl, rfl, rfl, Nat.le_refl _⟩

theorem FrameChain.SameActivation.trans {first second third : FrameChain}
    (hfirst : first.SameActivation second) (hsecond : second.SameActivation third) :
    first.SameActivation third :=
  ⟨hsecond.entry.trans hfirst.entry, hsecond.hostBase.trans hfirst.hostBase,
    hsecond.callers.trans hfirst.callers, hsecond.frame.trans hfirst.frame,
    hsecond.width.trans hfirst.width, Nat.le_trans hfirst.offset hsecond.offset⟩

namespace Tracked

variable {limit : Nat} {registry : Registry} {known : List Value} {activity next : Activity}
  {chain : FrameChain} {calls : CallStack}

/-- There are as many frames on the stack as calls in progress. -/
theorem length_callers (htracked : Tracked limit registry known activity chain calls) :
    chain.callers.length = calls.callers.length :=
  htracked.mirrors.callers.length_eq

/-- An instruction that stays within its activation goes on further behind in its code. -/
theorem of_stays (htracked : Tracked limit registry known activity chain calls)
    (hstays : activity.Stays next) :
    ∃ (later : FrameChain) (nextCalls : CallStack), Tracked limit registry known next later nextCalls ∧
      chain.SameActivation later ∧ chain.current.offset < later.current.offset := by
  obtain ⟨instruction, later, nextCalls, -, hlater, -, hadvances, hmoves⟩ :=
    htracked.of_continues hstays.continues
  have hcallee := hstays.callee
  rw [htracked.callee?_eq] at hcallee
  have hreturns := hstays.returns
  rw [htracked.returns_iff] at hreturns
  cases hadvances with
  | within _ _ hcallers hroutine hforward =>
    rw [← htracked.mirrors.current.offset, ← hlater.mirrors.current.offset] at hforward
    have hcount : later.callers.length = chain.callers.length := by
      rw [hlater.length_callers, hcallers, htracked.length_callers]
    obtain ⟨offset, locals, operands, hwidth, rfl⟩ := hmoves.eq_of_stays hcount
    exact ⟨_, nextCalls, hlater, ⟨rfl, rfl, rfl, rfl, hwidth, Nat.le_of_lt hforward⟩, hforward⟩
  | enters _ hfound => exact absurd (hfound.symm.trans hcallee) (Option.some_ne_none _)
  | leaves hfound => exact absurd hfound hreturns

/-- A call of a compiled function puts a frame on top of the one of the caller, which waits behind the call
instruction without function, receiver and arguments. -/
theorem of_calls (htracked : Tracked limit registry known activity chain calls)
    (hcalls : activity.Calls next) :
    ∃ (argumentCount : UInt32) (later : FrameChain) (nextCalls : CallStack)
      (arguments rest : List Word) (receiver : Word),
      activity.frame.routine.unit.instructionAt activity.offset = .ok (.call argumentCount) ∧
      arguments.length = argumentCount.toNat ∧ Tracked limit registry known next later nextCalls ∧
      chain.current.operands = arguments ++ receiver :: later.current.frame.word :: rest ∧
      later.entry = chain.entry ∧ later.hostBase = chain.hostBase ∧ later.current.offset = 0 ∧
      later.callers =
        { chain.current with
          offset := chain.current.offset + (Instruction.call argumentCount).size
          operands := rest } :: chain.callers := by
  obtain ⟨instruction, later, nextCalls, hinstruction, hlater, -, hadvances, hmoves⟩ :=
    htracked.of_continues hcalls.continues
  have hcallee := hcalls.callee
  rw [htracked.callee?_eq] at hcallee
  cases hadvances with
  | within hnone => exact absurd hcallee (by rw [hnone]; exact Bool.false_ne_true)
  | @enters routine argumentCount behind rest hoperation _ _ hlength hcallers _ _ =>
    have hcount : later.callers.length = chain.callers.length + 1 := by
      rw [hlater.length_callers, hcallers, htracked.length_callers, List.length_cons]
    obtain ⟨frame, locals, arguments, words, receiver, hoperands, rfl⟩ := hmoves.eq_of_calls hcount
    obtain ⟨found, operation, hfound, hresolved, hnext, -, -⟩ := htracked.exists_instruction
    have hframe : activity.frame = chain.current.frame := htracked.mirrors.realizes.frame
    have hoffset : activity.offset = chain.current.offset := htracked.mirrors.realizes.offset
    rw [← hframe, ← hoffset, hfound] at hinstruction
    obtain rfl := Except.ok.inj hinstruction
    rw [hnext] at hoperation
    obtain ⟨rfl, rfl⟩ := Prod.mk.inj (Option.some.inj hoperation)
    obtain ⟨operand, rfl, rfl⟩ := Instruction.eq_call_of_operation? hresolved
    refine ⟨operand, _, nextCalls, arguments, words, receiver, hfound, ?_, hlater, hoperands, rfl, rfl,
      rfl, rfl⟩
    -- the calls tell how many operands are left to the caller
    have hwaiting := hlater.mirrors.callers
    rw [hcallers] at hwaiting
    obtain ⟨hcaller, -⟩ := List.forall₂_cons.mp hwaiting
    have hrest := hcaller.operands.length_eq
    have htotal := htracked.mirrors.current.operands.length_eq
    have hsplit := congrArg List.length hoperands
    simp only [FrameChain.withOffset, List.length_append, List.length_cons] at hsplit hrest
    omega
  | leaves hreturns =>
    obtain ⟨behind, hreturn⟩ := hreturns
    unfold CallStack.callee? at hcallee
    rw [hreturn] at hcallee
    cases hcallee

/-- A return to a caller takes the topmost frame away, and its topmost operand becomes the result. -/
theorem of_leaves (htracked : Tracked limit registry known activity chain calls)
    (hleaves : activity.Leaves next) :
    ∃ (caller : Segment) (callers : List Segment) (result : Word) (rest : List Word)
      (nextCalls : CallStack), chain.callers = caller :: callers ∧
      chain.current.operands = result :: rest ∧
      Tracked limit registry known next
        ⟨chain.entry, chain.hostBase, { caller with operands := result :: caller.operands }, callers⟩
        nextCalls := by
  obtain ⟨instruction, later, nextCalls, -, hlater, -, hadvances, hmoves⟩ :=
    htracked.of_continues hleaves.continues
  have hreturns := htracked.returns_iff.mp hleaves.returns
  cases hadvances with
  | within _ hnone => exact absurd hreturns hnone
  | enters hoperation =>
    obtain ⟨behind, hreturn⟩ := hreturns
    rw [hoperation] at hreturn
    cases hreturn
  | leaves _ hcallers _ =>
    have hcount : chain.callers.length = later.callers.length + 1 := by
      rw [htracked.length_callers, hcallers, hlater.length_callers, List.length_cons]
    obtain ⟨caller, callers, result, rest, hchain, hoperands, rfl⟩ := hmoves.eq_of_returns hcount
    exact ⟨caller, callers, result, rest, nextCalls, hchain, hoperands, hlater⟩

/-- A whole activation keeps its frame, and the frames of its callers. -/
theorem of_spans (htracked : Tracked limit registry known activity chain calls)
    (hspans : activity.Spans next) :
    ∃ (later : FrameChain) (nextCalls : CallStack), Tracked limit registry known next later nextCalls ∧
      chain.SameActivation later := by
  induction hspans generalizing chain calls with
  | refl => exact ⟨chain, calls, htracked, FrameChain.SameActivation.refl chain⟩
  | stays hstays _ ih =>
    obtain ⟨middle, between, hmiddle, hsame, -⟩ := htracked.of_stays hstays
    obtain ⟨later, nextCalls, hlater, hrest⟩ := ih hmiddle
    exact ⟨later, nextCalls, hlater, hsame.trans hrest⟩
  | calls hcalls _ hleaves _ ihBody ihRest =>
    obtain ⟨argumentCount, begun, begunCalls, arguments, rest, receiver, -, -, hbegun, -, hentry,
      hhost, -, hcallers⟩ := htracked.of_calls hcalls
    obtain ⟨ended, endedCalls, hended, hbody⟩ := ihBody hbegun
    obtain ⟨caller, callers, result, others, resumedCalls, hwaiting, -, hresumed⟩ := hended.of_leaves hleaves
    rw [hbody.callers, hcallers] at hwaiting
    obtain ⟨rfl, rfl⟩ := List.cons.inj hwaiting
    rw [hbody.entry, hbody.hostBase, hentry, hhost] at hresumed
    obtain ⟨later, nextCalls, hlater, hsame⟩ := ihRest hresumed
    refine ⟨later, nextCalls, hlater, FrameChain.SameActivation.trans ?_ hsame⟩
    exact ⟨rfl, rfl, rfl, rfl, rfl, Nat.le_add_right _ _⟩

end Tracked

/-! ### Returns -/

/-- A caller goes on behind its call. Its frame, its base and the words on its stack are what they were
before the call, with the result in place of function, receiver and arguments. -/
structure Activity.Resumes (caller resumed : Activity) (result : Word) : Prop where
  frame : resumed.frame = caller.frame
  base : resumed.machine.stack.base = caller.machine.stack.base
  contents : ∃ (argumentCount : UInt32) (below : List Word) (callee receiver : Word)
      (arguments : List Word),
    caller.frame.routine.unit.instructionAt caller.offset = .ok (.call argumentCount) ∧
      resumed.offset = caller.offset + (Instruction.call argumentCount).size ∧
      arguments.length = argumentCount.toNat ∧
      caller.machine.stack.contents = below ++ callee :: receiver :: arguments ∧
      resumed.machine.stack.contents = below ++ [result]

namespace Tracked

variable {limit : Nat} {registry : Registry} {known : List Value} {activity next : Activity}
  {chain : FrameChain} {calls : CallStack}

/-- When a callee returns, its caller goes on as it was before the call, with the topmost operand of the
callee as the result. -/
theorem resumes (htracked : Tracked limit registry known activity chain calls)
    {entered last : Activity} (hcalls : activity.Calls entered) (hspans : entered.Spans last)
    (hleaves : last.Leaves next) :
    ∃ (result : Word) (words : List Word), last.machine.stack.contents = words ++ [result] ∧
      activity.Resumes next result := by
  obtain ⟨argumentCount, begun, begunCalls, arguments, rest, receiver, hinstruction, hcount, hbegun,
    hoperands, hentry, hhost, -, hcallers⟩ := htracked.of_calls hcalls
  obtain ⟨ended, endedCalls, hended, hbody⟩ := hbegun.of_spans hspans
  obtain ⟨caller, callers, result, others, resumedCalls, hwaiting, hresult, hresumed⟩ :=
    hended.of_leaves hleaves
  rw [hbody.callers, hcallers] at hwaiting
  obtain ⟨rfl, rfl⟩ := List.cons.inj hwaiting
  rw [hbody.entry, hbody.hostBase, hentry, hhost] at hresumed
  have hactivity := htracked.mirrors.realizes
  have hlast := hended.mirrors.realizes
  have hnext := hresumed.mirrors.realizes
  have hoffset : activity.offset = chain.current.offset := hactivity.offset
  refine ⟨result, ended.floor ++ others.reverse, ?_, hnext.frame.trans hactivity.frame.symm,
    hnext.base.trans hactivity.base.symm, argumentCount, chain.floor ++ rest.reverse,
    begun.current.frame.word, receiver, arguments.reverse, hinstruction, ?_, ?_, ?_, ?_⟩
  · rw [hlast.contents]
    simp [FrameChain.snapshot, FrameChain.contents_eq, hresult]
  · rw [hoffset]
    exact hnext.offset
  · rw [List.length_reverse, hcount]
  · rw [hactivity.contents]
    simp [FrameChain.snapshot, FrameChain.contents_eq, hoperands]
  · rw [hnext.contents]
    simp only [FrameChain.snapshot, FrameChain.contents, FrameChain.stacked, FrameChain.floor,
      FrameChain.lower, FrameChain.record]
    -- the word that a record saves for the host depends on the frame alone, which is the same
    cases chain.callers <;> simp [FrameChain.savedWord]

/-- Within an activation, the next instruction lies further behind in the code. -/
theorem offset_lt (htracked : Tracked limit registry known activity chain calls)
    (hproceeds : activity.Proceeds next) : activity.offset < next.offset := by
  cases hproceeds with
  | stays hstays =>
    obtain ⟨later, nextCalls, hlater, -, hforward⟩ := htracked.of_stays hstays
    have hoffset : activity.offset = chain.current.offset := htracked.mirrors.realizes.offset
    have hnext : next.offset = later.current.offset := hlater.mirrors.realizes.offset
    omega
  | returns hcalls hbody hleaves =>
    obtain ⟨result, words, -, hresumes⟩ := htracked.resumes hcalls hbody hleaves
    obtain ⟨argumentCount, _, _, _, _, -, hoffset, -⟩ := hresumes.contents
    rw [hoffset]
    exact Nat.lt_add_of_pos_right (Instruction.size_pos _)

end Tracked

/-! ### Every activity belongs to an activation -/

namespace Activity.Nests

variable {start activity next : Activity}

/-- What belongs to an activation of a run is reached. -/
theorem reaches (hnests : start.Nests activity) : start.Reaches activity := by
  induction hnests with
  | outermost hspans => exact hspans.reaches
  | inner _ hcalls hspans ih => exact ih.trans (.head hcalls.continues hspans.reaches)

end Activity.Nests

namespace Tracked

variable {limit : Nat} {registry : Registry} {known : List Value} {start activity next : Activity}
  {chain : FrameChain} {calls : CallStack}

end Tracked

end ScriptMachine
