import ScriptMachine.Machine.Run
import ScriptMachine.Proofs.Advancing
import ScriptMachine.Proofs.MirroringCalls

/-!
# Runs

`CallStack.Ends` says what comes of some calls in the end, and `CallStack.Settles` what a machine that runs
the same calls answers: the same value, the same fault, or that its stack is full, because the calls have
come to need more words than its limit. `Mirrors.exists_run` is that a machine always answers, within a
number of steps that depends on its limit alone, and that the answer is that of the calls: each step of the
machine is one of the calls (`Mirrors.step`), and the weight of the code that the calls have left decreases.
The one exception is a machine whose stack gets longer than what a word can number (`Activity.Crowds`), since
the base of a caller is saved in a word.

A `Machine.Rests` is a machine between calls: it shows a valid world and has only known words in use.
-/

set_option autoImplicit false
set_option relaxedAutoImplicit false

namespace ScriptMachine

/-! ### Machines between calls -/

/-- A machine has the globals, the objects, the printed text and the functions of the host that make up a
world. -/
structure Machine.Shows (machine : Machine) (world : World) : Prop where
  globals : machine.globals = world.globals
  sink : machine.sink = world.sink
  hosts : machine.hosts = world.hosts
  heap : machine.heap.Holds machine.constants world.store

/-- A machine between calls has the parts of a snapshot, in which no frame runs. -/
structure Machine.Realizes (machine : Machine) (world : World) (constants : ConstantTable) (limit : Nat)
    (contents : List Word) (base : Nat) : Prop where
  shows : machine.Shows world
  constants : machine.constants = constants
  fits : machine.stack.Fits
  contents : machine.stack.contents = contents
  base : machine.stack.base = base
  limit : machine.stack.limit = limit

/-- The machine of an activity realizes what the activity does. -/
theorem Activity.Realizes.rests {activity : Activity} {snapshot : Snapshot}
    (hrealizes : activity.Realizes snapshot) :
    activity.machine.Realizes snapshot.world snapshot.constants snapshot.limit snapshot.contents
      snapshot.base := by
  have hheap := hrealizes.heap
  rw [← hrealizes.constants] at hheap
  exact ⟨⟨hrealizes.globals, hrealizes.sink, hrealizes.hosts, hheap⟩, hrealizes.constants,
    hrealizes.fits, hrealizes.contents, hrealizes.base, hrealizes.limit⟩

/-- The top of the stack counts the words in use. -/
theorem Machine.Realizes.top_eq {machine : Machine} {world : World} {constants : ConstantTable}
    {limit : Nat} {contents : List Word} {base : Nat}
    (hrealizes : machine.Realizes world constants limit contents base) :
    machine.stack.top = contents.length := by
  rw [← hrealizes.contents, hrealizes.fits.length_contents]

/-- An activity realizes what its machine does, with its own frame. -/
theorem Machine.Realizes.inside {machine : Machine} {world : World} {constants : ConstantTable}
    {limit : Nat} {contents : List Word} {base : Nat}
    (hrealizes : machine.Realizes world constants limit contents base) (frame : Frame) (offset : Nat) :
    Activity.Realizes ⟨machine, frame, offset⟩
      ⟨world, constants, limit, contents, base, frame, offset⟩ := by
  have hheap := hrealizes.shows.heap
  rw [hrealizes.constants] at hheap
  exact ⟨hrealizes.shows.globals, hrealizes.shows.sink, hrealizes.shows.hosts, hheap,
    hrealizes.constants, hrealizes.fits, hrealizes.contents, hrealizes.base, hrealizes.limit, rfl, rfl⟩

/-- A machine between calls shows a valid world. -/
structure Machine.Rests (machine : Machine) (registry : Registry) (known : List Value) (limit : Nat)
    (contents : List Word) (base : Nat) (world : World) (constants : ConstantTable) : Prop where
  realizes : machine.Realizes world constants limit contents base
  visible : world.Valid registry known
  entries : constants.Valid registry
  code : registry.Verified constants

/-- Words lower down are still there as well. -/
theorem EndsAt.lower {limit : Nat} {activity : Activity} {below between : List Word} {world : World}
    {constants : ConstantTable} (hends : EndsAt limit activity (below ++ between) world constants) :
    EndsAt limit activity below world constants := by
  obtain ⟨snapshot, above, hrealizes, hworld, hconstants, hlimit, hcontents⟩ := hends
  exact ⟨snapshot, between ++ above, hrealizes, hworld, hconstants, hlimit,
    hcontents.trans (List.append_assoc _ _ _)⟩

/-- Cutting the stack back to the words from before the host entered leaves just these. -/
theorem EndsAt.unwind {limit : Nat} {activity : Activity} {entry : List Word} {world : World}
    {constants : ConstantTable} (hends : EndsAt limit activity entry world constants) (base : Nat) :
    (activity.machine.unwind entry.length base).Realizes world constants limit entry base := by
  obtain ⟨snapshot, above, hrealizes, rfl, rfl, rfl, hcontents⟩ := hends
  have htop : activity.machine.stack.top = entry.length + above.length := by
    rw [hrealizes.top_eq, hcontents, List.length_append]
  have hle : entry.length ≤ activity.machine.stack.top := by omega
  have hshows := hrealizes.rests.shows
  refine ⟨⟨hshows.globals, hshows.sink, hshows.hosts, hshows.heap⟩, hrealizes.constants,
    hrealizes.fits.cut base hle, ?_, rfl, hrealizes.limit⟩
  exact (Stack.contents_cut _ base hle).trans (by rw [hrealizes.contents, hcontents, List.take_left])

/-! ### Runs of calls -/

namespace CallStack

/-- One step leads from calls to others. -/
def Continues (calls later : CallStack) : Prop :=
  calls.step = some (.next later)

/-- Some steps lead from calls to others. -/
def Reaches (calls later : CallStack) : Prop :=
  Relation.ReflTransGen Continues calls later

/-- What comes of calls in the end. -/
def Ends (calls : CallStack) (progress : Progress) : Prop :=
  ∃ last : CallStack, calls.Reaches last ∧ last.step = some progress ∧
    ∀ later : CallStack, progress ≠ .next later

/-- All calls on the way have so many words and so many constants. -/
structure FitsInto (calls : CallStack) (limit below : Nat) (final : ConstantTable) : Prop where
  words : below + calls.words ≤ limit
  numbered : below + calls.words ≤ 4294967296
  constants : calls.constants.Extends final

/-- All calls on the way fit on a stack with a limit, on top of the words below, and their constants are
among the final ones. -/
def StaysWithin (calls : CallStack) (limit below : Nat) (final : ConstantTable) : Prop :=
  ∀ reached : CallStack, calls.Reaches reached → reached.FitsInto limit below final

variable {calls later : CallStack}

/-- Calls that have gone on one step are on the only way there is. -/
theorem Reaches.cases_of_continues (hcontinues : calls.Continues later) {reached : CallStack}
    (hreaches : calls.Reaches reached) : reached = calls ∨ later.Reaches reached := by
  rcases hreaches.cases_head with hsame | ⟨second, hsecond, hrest⟩
  · exact Or.inl hsame.symm
  · unfold Continues at hcontinues hsecond
    rw [hcontinues] at hsecond
    obtain rfl := Progress.next.inj (Option.some.inj hsecond)
    exact Or.inr hrest

/-- Calls that do not go on reach only themselves. -/
theorem Reaches.eq_of_terminal {progress : Progress} (hstep : calls.step = some progress)
    (hterminal : ∀ later : CallStack, progress ≠ .next later) {reached : CallStack}
    (hreaches : calls.Reaches reached) : reached = calls := by
  rcases hreaches.cases_head with hsame | ⟨second, hsecond, -⟩
  · exact hsame.symm
  · unfold Continues at hsecond
    rw [hstep] at hsecond
    exact absurd (Option.some.inj hsecond) (hterminal second)

/-- What comes of calls after a step comes of them before. -/
theorem Ends.of_continues (hcontinues : calls.Continues later) {progress : Progress}
    (hends : later.Ends progress) : calls.Ends progress := by
  obtain ⟨last, hreaches, hlast⟩ := hends
  exact ⟨last, .head hcontinues hreaches, hlast⟩

/-- Only one thing comes of calls. -/
theorem Ends.unique {first second : Progress} (hfirst : calls.Ends first) (hsecond : calls.Ends second) :
    first = second := by
  obtain ⟨last, hreaches, hlast, hterminal⟩ := hfirst
  induction hreaches using Relation.ReflTransGen.head_induction_on with
  | refl =>
    obtain ⟨other, hother, hstep, -⟩ := hsecond
    obtain rfl := hother.eq_of_terminal hlast hterminal
    rw [hlast] at hstep
    exact Option.some.inj hstep
  | head hcontinues _ ih =>
    obtain ⟨other, hother, hstep, hdone⟩ := hsecond
    rcases hother.cases_of_continues hcontinues with rfl | hlater
    · unfold Continues at hcontinues
      rw [hstep] at hcontinues
      exact absurd (Option.some.inj hcontinues) (hdone _)
    · exact ih ⟨other, hlater, hstep, hdone⟩

/-- Valid calls stay valid. -/
theorem Valid.of_reaches {registry : Registry} {known : List Value} (hvalid : calls.Valid registry known)
    (hreaches : calls.Reaches later) : later.Valid registry known := by
  induction hreaches with
  | refl => exact hvalid
  | tail _ hcontinues ih =>
    obtain ⟨progress, hstep, hprogress⟩ := ih.step
    unfold Continues at hcontinues
    rw [hcontinues] at hstep
    obtain rfl := Option.some.inj hstep
    exact hprogress

end CallStack

/-! ### Constants on the way -/

/-- The constants after an operation. -/
def Progress.constants : Progress → ConstantTable
  | .next calls => calls.constants
  | .finished _ _ constants => constants
  | .failed _ _ constants => constants

namespace CallStack

variable {calls : CallStack}

/-- A call only adds constants. -/
theorem call_extends {callee receiver : Value} {arguments rest : List Value} {progress : Progress}
    (hcalled : calls.call callee receiver arguments rest = some progress) :
    calls.constants.Extends progress.constants := by
  have hsame := ConstantTable.Extends.refl calls.constants
  unfold call at hcalled
  split at hcalled
  case h_1 =>
    split at hcalled
    case h_1 =>
      obtain rfl := Option.some.inj hcalled
      exact ConstantTable.carry_extends _ _
    case h_2 =>
      obtain rfl := Option.some.inj hcalled
      exact hsame
  case h_2 =>
    split_ifs at hcalled
    all_goals
      obtain rfl := Option.some.inj hcalled
      exact hsame
  case h_3 =>
    obtain rfl := Option.some.inj hcalled
    exact hsame

/-- An operation only adds constants. -/
theorem perform_extends {operation : Operation} {progress : Progress}
    (hperformed : calls.perform operation = some progress) :
    calls.constants.Extends progress.constants := by
  have hsame := ConstantTable.Extends.refl calls.constants
  have hproceed : ∀ {rest : List Value} {outcome : Except Fault (Value × World)},
      calls.constants.Extends (calls.proceed rest outcome).constants := by
    intro rest outcome
    unfold proceed
    split <;> exact hsame
  unfold perform at hperformed
  split at hperformed
  case h_2 =>
    obtain rfl := Option.some.inj hperformed
    exact ConstantTable.carry_extends _ _
  case h_4 =>
    obtain ⟨value, -, rfl⟩ := Option.map_eq_some_iff.mp hperformed
    exact hsame
  case h_5 =>
    split_ifs at hperformed
    obtain rfl := Option.some.inj hperformed
    exact hsame
  case h_9 =>
    split at hperformed
    · exact call_extends hperformed
    · cases hperformed
  case h_10 =>
    obtain rfl := Option.some.inj hperformed
    unfold leave
    split <;> exact hsame
  case h_12 =>
    obtain rfl := Option.some.inj hperformed
    simp only [Progress.constants]
    split <;> exact hsame
  case h_13 =>
    split_ifs at hperformed
    obtain rfl := Option.some.inj hperformed
    exact hproceed
  case h_14 =>
    obtain rfl := Option.some.inj hperformed
    exact hproceed
  case h_15 =>
    split at hperformed
    all_goals
      obtain rfl := Option.some.inj hperformed
      exact hsame
  case h_16 => cases hperformed
  all_goals
    obtain rfl := Option.some.inj hperformed
    exact hsame

/-- A step only adds constants. -/
theorem step_extends {progress : Progress} (hstep : calls.step = some progress) :
    calls.constants.Extends progress.constants := by
  unfold step at hstep
  split at hstep
  case h_1 => cases hstep
  case h_2 operation next _ =>
    have hextends := perform_extends hstep
    exact hextends

/-- Steps only add constants. -/
theorem Reaches.extends {later : CallStack} (hreaches : calls.Reaches later) :
    calls.constants.Extends later.constants := by
  induction hreaches with
  | refl => exact ConstantTable.Extends.refl _
  | tail _ hcontinues ih => exact ih.trans (step_extends hcontinues)

end CallStack

/-! ### How many words calls need -/

namespace CallStack

variable {calls : CallStack}

/-- Every call needs some words. -/
theorem callers_length_lt_words (calls : CallStack) : calls.callers.length < calls.words := by
  have hcount : ∀ levels : List Level, levels.length ≤ (levels.map Level.words).sum := by
    intro levels
    induction levels with
    | nil => exact Nat.le_refl _
    | cons level levels ih =>
      simp only [List.length_cons, List.map_cons, List.sum_cons, Level.words]
      omega
  exact hcount (calls.current :: calls.callers)

/-- Every variable needs a word. -/
theorem locals_length_le_words (calls : CallStack) : calls.current.locals.length ≤ calls.words := by
  simp only [words, List.map_cons, List.sum_cons, Level.words]
  omega

end CallStack

/-! ### Runs of the machine -/

namespace Activity

/-- One instruction leads from an activity to another. -/
def Continues (activity later : Activity) : Prop :=
  Execution.step activity = .ok none later

/-- Some instructions lead from an activity to another. -/
def Reaches (activity later : Activity) : Prop :=
  Relation.ReflTransGen Continues activity later

/-- The stack comes to have more words in use than a word can number. -/
def Crowds (activity : Activity) : Prop :=
  ∃ reached : Activity, activity.Reaches reached ∧ 4294967296 < reached.machine.stack.top

/-- A stack that gets too long after an instruction gets too long. -/
theorem Crowds.of_continues {activity next : Activity} (hcontinues : activity.Continues next)
    (hcrowds : next.Crowds) : activity.Crowds := by
  obtain ⟨reached, hreaches, hlong⟩ := hcrowds
  exact ⟨reached, .head hcontinues hreaches, hlong⟩

/-- A run comes to its end with an instruction that answers with a value, or with one that fails. -/
theorem exists_last {steps : Nat} {activity : Activity} {outcome : CallOutcome}
    (hrun : activity.run steps = some outcome) :
    ∃ last : Activity, activity.Reaches last ∧
      ((∃ (value : Value) (final : Activity), Execution.step last = .ok (some value) final ∧
          outcome = (.ok value, final.machine)) ∨
        ∃ (fault : Fault) (final : Activity), Execution.step last = .error fault final ∧
          outcome = (.error (final.frame.locate fault last.offset), final.machine)) := by
  induction steps generalizing activity with
  | zero => cases hrun
  | succ steps ih =>
    unfold run at hrun
    dsimp only at hrun
    cases hstep : Execution.step activity with
    | error fault final =>
      rw [hstep] at hrun
      exact ⟨activity, .refl, Or.inr ⟨fault, final, hstep, (Option.some.inj hrun).symm⟩⟩
    | ok value next =>
      rw [hstep] at hrun
      cases value with
      | some value => exact ⟨activity, .refl, Or.inl ⟨value, next, hstep, (Option.some.inj hrun).symm⟩⟩
      | none =>
        obtain ⟨last, hreaches, hended⟩ := ih hrun
        exact ⟨last, .head hstep hreaches, hended⟩

/-- More steps than a run takes do not change its outcome. -/
theorem run_mono {steps more : Nat} (hle : steps ≤ more) {activity : Activity} {outcome : CallOutcome}
    (hrun : activity.run steps = some outcome) : activity.run more = some outcome := by
  induction steps generalizing more activity with
  | zero => cases hrun
  | succ steps ih =>
    obtain ⟨more, rfl⟩ : ∃ fewer : Nat, more = fewer + 1 := ⟨more - 1, by omega⟩
    unfold run at hrun ⊢
    dsimp only at hrun ⊢
    cases hstep : Execution.step activity with
    | ok value next =>
      rw [hstep] at hrun
      cases value with
      | some value => exact hrun
      | none => exact ih (by omega) hrun
    | error fault next =>
      rw [hstep] at hrun
      exact hrun

end Activity

/-- The outcome of a call of the host, with the stack cut back when it has failed. -/
def Machine.cutBack (top base : Nat) : CallOutcome → CallOutcome
  | (.ok value, machine) => (.ok value, machine)
  | (.error located, machine) => (.error located, machine.unwind top base)

/-- What a machine answers when the host calls: the value or the fault of the calls, or that its stack is
full. -/
inductive CallStack.Settles (registry : Registry) (known : List Value) (limit : Nat) (entry : List Word)
    (base : Nat) (calls : CallStack) : CallOutcome → Prop where
  | finished {value : Value} {world : World} {constants : ConstantTable} {machine : Machine}
      (hends : calls.Ends (.finished value world constants))
      (hvalue : value.Valid registry world.store.records)
      (hrests : machine.Rests registry known limit entry base world constants)
      (hwithin : calls.StaysWithin limit entry.length constants) :
      Settles registry known limit entry base calls (.ok value, machine)
  | failed {located : LocatedFault} {world : World} {constants : ConstantTable} {machine : Machine}
      (hends : calls.Ends (.failed located.fault world constants)) (hinternal : ¬ located.fault.Internal)
      (hrests : machine.Rests registry known limit entry base world constants)
      (hwithin : calls.StaysWithin limit entry.length constants) :
      Settles registry known limit entry base calls (.error located, machine)
  | overflows {located : LocatedFault} {reached : CallStack} {machine : Machine}
      (hfault : located.fault = .stackOverflow limit) (hreaches : calls.Reaches reached)
      (hwords : limit < entry.length + reached.words)
      (hrests : machine.Rests registry known limit entry base reached.world reached.constants) :
      Settles registry known limit entry base calls (.error located, machine)

/-- What a machine answers after a step of the calls is its answer before the step. -/
theorem CallStack.Settles.of_continues {registry : Registry} {known : List Value} {limit : Nat}
    {entry : List Word} {base : Nat} {calls later : CallStack} {outcome : CallOutcome}
    (hcontinues : calls.Continues later)
    (hfits : ∀ final : ConstantTable, calls.constants.Extends final →
      calls.FitsInto limit entry.length final)
    (hsettles : later.Settles registry known limit entry base outcome) :
    calls.Settles registry known limit entry base outcome := by
  have hwiden : ∀ {final : ConstantTable}, later.StaysWithin limit entry.length final →
      calls.StaysWithin limit entry.length final := by
    intro final hwithin reached hreaches
    rcases hreaches.cases_of_continues hcontinues with rfl | hlater
    · exact hfits final ((CallStack.step_extends hcontinues).trans (hwithin later .refl).constants)
    · exact hwithin reached hlater
  cases hsettles with
  | finished hends hvalue hrests hwithin =>
    exact .finished (hends.of_continues hcontinues) hvalue hrests (hwiden hwithin)
  | failed hends hinternal hrests hwithin =>
    exact .failed (hends.of_continues hcontinues) hinternal hrests (hwiden hwithin)
  | overflows hfault hreaches hwords hrests =>
    exact .overflows hfault (.head hcontinues hreaches) hwords hrests

namespace Mirrors

variable {limit : Nat} {activity : Activity} {chain : FrameChain} {calls : CallStack}
  {registry : Registry} {known : List Value}

/-- The calls of a machine fit on its stack. -/
theorem words_le (hmirrors : Mirrors limit activity chain calls) :
    chain.entry.length + calls.words ≤ limit := by
  rw [← hmirrors.length_contents]
  exact hmirrors.realizes.length_le_limit

/-- A machine that runs some calls answers what they answer, after no more steps than the calls have code
left to weigh, as long as a word can number the words on its stack. -/
theorem exists_run (hmirrors : Mirrors limit activity chain calls) (hvalid : calls.Valid registry known)
    {steps : Nat} (hsteps : calls.rank limit < steps) :
    (∃ outcome : CallOutcome, activity.run steps = some outcome ∧
        calls.Settles registry known limit chain.entry chain.hostBase
          (Machine.cutBack chain.entry.length chain.hostBase outcome)) ∨
      4294967296 < limit ∧ activity.Crowds := by
  induction steps generalizing activity chain calls with
  | zero => exact absurd hsteps (Nat.not_lt_zero _)
  | succ steps ih =>
    have hlimit := hmirrors.words_le
    by_cases hroom : chain.contents.length ≤ 4294967296
    swap
    · have hlong := Nat.lt_of_not_le hroom
      rw [hmirrors.length_contents] at hlong
      refine Or.inr ⟨Nat.lt_of_lt_of_le hlong hlimit, activity, .refl, ?_⟩
      rw [hmirrors.realizes.top_eq]
      exact Nat.lt_of_not_le hroom
    obtain ⟨instruction, progress, -, hstep, hprogress, hcorresponds⟩ := hmirrors.step hvalid hroom
    have hfits : ∀ final : ConstantTable, calls.constants.Extends final →
        calls.FitsInto limit chain.entry.length final :=
      fun final hextends ↦ ⟨hlimit, hmirrors.length_contents ▸ hroom, hextends⟩
    have hwithin : (∀ later : CallStack, progress ≠ .next later) →
        calls.StaysWithin limit chain.entry.length progress.constants := by
      intro hterminal reached hreaches
      obtain rfl := hreaches.eq_of_terminal hstep hterminal
      exact hfits _ (CallStack.step_extends hstep)
    -- below the running frame are the words from before the host entered
    obtain ⟨between, hbetween⟩ := FrameChain.exists_stacked_eq chain.entry chain.hostBase chain.callers
    have hlower : (chain.withOffset (chain.current.offset + instruction.size)).lower =
        chain.entry ++ between := hbetween
    unfold Activity.run
    dsimp only
    cases progress with
    | next later =>
      rcases hcorresponds with ⟨next, laterChain, hok, hlater, hmoves⟩ | ⟨final, hfull, hends, hwords⟩
      · rw [hok]
        have hdepth : later.callers.length < limit :=
          Nat.lt_of_lt_of_le later.callers_length_lt_words
            (Nat.le_trans (Nat.le_add_left _ _) hlater.words_le)
        have hless := hvalid.rank_lt hprogress (hvalid.advances hstep) hdepth
        rcases ih hlater hprogress (by omega) with ⟨outcome, hrun, hsettles⟩ | ⟨hlarge, hcrowds⟩
        · obtain ⟨hentry, hbase⟩ := hmoves.entry_eq
          simp only [FrameChain.withOffset] at hentry hbase
          rw [hentry, hbase] at hsettles
          exact Or.inl ⟨outcome, hrun, hsettles.of_continues hstep hfits⟩
        · exact Or.inr ⟨hlarge, hcrowds.of_continues hok⟩
      · rw [hfull]
        rw [hlower] at hends
        exact Or.inl ⟨_, rfl, .overflows rfl (.single hstep) hwords
          ⟨hends.lower.unwind _, hprogress.world, hprogress.constants, hprogress.code⟩⟩
    | finished value world constants =>
      obtain ⟨final, frame, offset, hok, -, hrealizes⟩ := hcorresponds
      obtain ⟨hworld, hconstants, hcode, hvalue⟩ := hprogress
      have hterminal : ∀ later : CallStack, Progress.finished value world constants ≠ .next later := by
        rintro _ ⟨⟩
      rw [hok]
      exact Or.inl ⟨_, rfl, .finished ⟨calls, .refl, hstep, hterminal⟩ hvalue
        ⟨hrealizes.rests, hworld, hconstants, hcode⟩ (hwithin hterminal)⟩
    | failed fault world constants =>
      obtain ⟨final, herror, hends⟩ := hcorresponds
      obtain ⟨hworld, hconstants, hcode, hinternal⟩ := hprogress
      have hterminal : ∀ later : CallStack, Progress.failed fault world constants ≠ .next later := by
        rintro _ ⟨⟩
      rw [herror]
      rw [hlower] at hends
      exact Or.inl ⟨_, rfl, .failed ⟨calls, .refl, hstep, hterminal⟩ hinternal
        ⟨hends.lower.unwind _, hworld, hconstants, hcode⟩ (hwithin hterminal)⟩

end Mirrors

end ScriptMachine
