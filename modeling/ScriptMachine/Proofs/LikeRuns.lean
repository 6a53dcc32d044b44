import ScriptMachine.Proofs.LikeCalls
import ScriptMachine.Proofs.Outcomes

/-!
# Runs that end alike

Two runs of alike calls end alike (`CallStack.Like.endsAlike`): with alike values, or with the same fault at the
same place, in alike worlds. The second run may have more room on its stack; then the first one may stop because
its stack is full, as it may for any other limit that the slack lets the second run have larger, and what it had
printed is the beginning of what the second run prints. The same holds of whole calls of the host
(`Machine.Rests.endsAlike`).
-/

set_option autoImplicit false
set_option relaxedAutoImplicit false

namespace ScriptMachine

/-! ### Ends of runs -/

/-- How two runs end, each with a result and a world: with alike values or the same located fault in alike
worlds, or the first one with a fault that is excused, when its text is the beginning of that of the second
one. -/
inductive EndsAlike (likeness : Likeness) (slack : Slack) :
    Except LocatedFault Value → World → Except LocatedFault Value → World → Prop where
  | value {value value' : Value} {world world' : World} (hvalue : value.Like likeness value')
      (hworld : world.Like likeness slack world') :
      EndsAlike likeness slack (.ok value) world (.ok value') world'
  | fault (located : LocatedFault) {world world' : World} (hworld : world.Like likeness slack world') :
      EndsAlike likeness slack (.error located) world (.error located) world'
  | cut {located : LocatedFault} {world world' : World} {result' : Except LocatedFault Value}
      (hexcused : slack.Excuses located.fault) (hprecedes : world.sink.Precedes world'.sink) :
      EndsAlike likeness slack (.error located) world result' world'

/-- The second of two runs has at least as much room on its stack, and as much if the slack allows no more. -/
structure Slack.Room (slack : Slack) (limit below limit' below' : Nat) : Prop where
  more : ∀ words : Nat, below + words ≤ limit → below' + words ≤ limit'
  same : ¬ slack.stack → limit = limit' ∧ below = below'

namespace Slack.Room

variable {likeness : Likeness} {slack : Slack} {limit below limit' below' words : Nat} {world world' : World}

/-- The second run has room where the first one has none only if that is allowed. -/
theorem allowed (hroom : slack.Room limit below limit' below') (hfull : limit < below + words)
    (hfits : below' + words ≤ limit') : slack.stack := by
  by_contra hnot
  obtain ⟨rfl, rfl⟩ := hroom.same hnot
  exact absurd hfits (Nat.not_le_of_lt hfull)

/-- Where the second run has no room, the first one has none either. -/
theorem full (hroom : slack.Room limit below limit' below') (hfull : limit' < below' + words) :
    limit < below + words :=
  Nat.lt_of_not_le fun hfits ↦ absurd (hroom.more words hfits) (Nat.not_le_of_lt hfull)

/-- Runs that both find their stacks full, at the same place, end alike. -/
theorem endsAlike (hroom : slack.Room limit below limit' below') (hworld : world.Like likeness slack world')
    (place : Fault → LocatedFault) (hplace : ∀ fault : Fault, (place fault).fault = fault) :
    EndsAlike likeness slack (.error (place (.stackOverflow limit))) world (.error (place (.stackOverflow limit')))
      world' := by
  by_cases hallowed : slack.stack
  · refine .cut ?_ (.of_eq hworld.sink.written)
    rw [hplace]
    exact hallowed
  · rw [(hroom.same hallowed).1]
    exact .fault _ hworld

end Slack.Room

namespace CallStack

variable {likeness : Likeness} {slack : Slack} {shared : Prop} {calls calls' : CallStack}
  {registry registry' : Registry} {known known' : List Value} {limit below limit' below' : Nat}

/-- Calls only add to the printed text until they stop. -/
theorem Stops.precedes {result : Except LocatedFault Value} {world : World} {constants : ConstantTable}
    (hstops : calls.Stops limit below result world constants) : calls.world.sink.Precedes world.sink := by
  induction hstops with
  | finished hstep | failed hstep | overflows hstep _ =>
    obtain ⟨_, _, -, hchanges⟩ := step_changes hstep
    exact hchanges.precedes
  | continues hstep _ _ ih =>
    obtain ⟨_, _, -, hchanges⟩ := step_changes hstep
    exact hchanges.precedes.trans ih

/-- Calls install no function of the host until they stop. -/
theorem Stops.hosts_eq {result : Except LocatedFault Value} {world : World} {constants : ConstantTable}
    (hstops : calls.Stops limit below result world constants) : world.hosts = calls.world.hosts := by
  induction hstops with
  | finished hstep | failed hstep | overflows hstep _ =>
    obtain ⟨_, _, -, hchanges⟩ := step_changes hstep
    exact hchanges.hosts_eq
  | continues hstep _ _ ih =>
    obtain ⟨_, _, -, hchanges⟩ := step_changes hstep
    exact ih.trans hchanges.hosts_eq

/-- Faults of alike calls have the same place. -/
theorem Like.locate_eq (hlike : calls.Like likeness slack shared calls') (fault : Fault) :
    calls.locate fault = calls'.locate fault := by
  obtain @⟨_, _, _, _, -, -, -, hline, hmnemonic, -⟩ := hlike.code
  rw [locate, locate, ← hlike.offset, hlike.name, hline, hmnemonic]

/-- Runs of alike calls end alike. -/
theorem Like.endsAlike (hlike : calls.Like likeness slack shared calls') (hvalid : calls.Valid registry known)
    (hvalid' : calls'.Valid registry' known') (hroom : slack.Room limit below limit' below')
    {result result' : Except LocatedFault Value} {world world' : World} {constants constants' : ConstantTable}
    (hstops : calls.Stops limit below result world constants)
    (hstops' : calls'.Stops limit' below' result' world' constants')
    (hcarries : likeness.Carries shared registry constants constants') :
    EndsAlike likeness slack result world result' world' := by
  -- what the next operations lead to is alike
  have hprogress : ∀ {calls calls' : CallStack} {progress progress' : Progress},
      calls.Like likeness slack shared calls' → calls.Valid registry known → calls'.Valid registry' known' →
      calls.step = some progress → calls'.step = some progress' → progress.constants.Extends constants →
      progress'.constants.Extends constants' → progress.Like likeness slack shared progress' :=
    fun hlike hvalid hvalid' hstep hstep' hextends hextends' ↦
      hlike.step hvalid hvalid' hstep hstep' (hcarries.of_extends hextends hextends')
  induction hstops generalizing calls' with
  | @finished calls value world constants hstep =>
    cases hstops' with
    | finished hstep' =>
      cases hprogress hlike hvalid hvalid' hstep hstep' (.refl _) (.refl _) with
      | finished hvalue hworld _ => exact .value hvalue hworld
    | failed hstep' | overflows hstep' _ =>
      cases hprogress hlike hvalid hvalid' hstep hstep' (.refl _) (.refl _)
    | continues hstep' _ hlater' =>
      cases hprogress hlike hvalid hvalid' hstep hstep' (.refl _) hlater'.extends
  | @failed calls fault world constants hstep =>
    cases hstops' with
    | failed hstep' =>
      cases hprogress hlike hvalid hvalid' hstep hstep' (.refl _) (.refl _) with
      | failed _ hworld _ =>
        rw [hlike.locate_eq]
        exact .fault _ hworld
      | cut hexcused hprecedes => exact .cut hexcused hprecedes
    | finished hstep' | overflows hstep' _ =>
      cases hprogress hlike hvalid hvalid' hstep hstep' (.refl _) (.refl _) with
      | cut hexcused hprecedes => exact .cut hexcused hprecedes
    | continues hstep' _ hlater' =>
      cases hprogress hlike hvalid hvalid' hstep hstep' (.refl _) hlater'.extends with
      | cut hexcused hprecedes => exact .cut hexcused (hprecedes.trans hlater'.precedes)
  | @overflows calls later hstep hfull =>
    cases hstops' with
    | finished hstep' | failed hstep' =>
      cases hprogress hlike hvalid hvalid' hstep hstep' (.refl _) (.refl _)
    | overflows hstep' hfull' =>
      cases hprogress hlike hvalid hvalid' hstep hstep' (.refl _) (.refl _) with
      | next hnext =>
        rw [hlike.locate_eq]
        exact hroom.endsAlike hnext.world calls'.locate fun _ ↦ rfl
    | continues hstep' hfits' hlater' =>
      cases hprogress hlike hvalid hvalid' hstep hstep' (.refl _) hlater'.extends with
      | next hnext =>
        rw [← hnext.words_eq] at hfits'
        exact .cut (hroom.allowed hfull hfits') ((Sink.Precedes.of_eq hnext.world.sink.written).trans hlater'.precedes)
  | @continues calls later result world constants hstep hfits hlater ih =>
    obtain ⟨progress, hfound, hlaterValid⟩ := hvalid.step
    obtain rfl := Option.some.inj (hstep.symm.trans hfound)
    cases hstops' with
    | finished hstep' | failed hstep' =>
      cases hprogress hlike hvalid hvalid' hstep hstep' hlater.extends (.refl _)
    | overflows hstep' hfull' =>
      cases hprogress hlike hvalid hvalid' hstep hstep' hlater.extends (.refl _) with
      | next hnext =>
        rw [← hnext.words_eq] at hfull'
        exact absurd hfits (Nat.not_le_of_lt (hroom.full hfull'))
    | continues hstep' _ hlater' =>
      obtain ⟨progress', hfound', hlaterValid'⟩ := hvalid'.step
      obtain rfl := Option.some.inj (hstep'.symm.trans hfound')
      cases hprogress hlike hvalid hvalid' hstep hstep' hlater.extends hlater'.extends with
      | next hnext => exact ih hnext hlaterValid hlaterValid' hlater' hcarries hprogress

end CallStack

/-! ### Whole calls of the host -/

/-- Calls of the host install no function of the host. -/
theorem Routine.Answers.hosts_eq {routine : Routine} {limit below : Nat} {world later : World}
    {constants final : ConstantTable} {receiver : Value} {arguments : List Value}
    {result : Except LocatedFault Value}
    (hanswers : routine.Answers limit below world constants receiver arguments result later final) :
    later.hosts = world.hosts := by
  cases hanswers with
  | refused => rfl
  | runs _ _ _ hstops => exact hstops.hosts_eq

section Refusals

variable {likeness : Likeness} {slack : Slack} {limit below limit' below' count : Nat}
  {table table' : ConstantTable} {routine routine' : Routine} {fault fault' : Fault}

/-- Calls of alike functions that are both refused end alike. -/
theorem Routine.Refuses.endsAlike (hrefuses : routine.Refuses limit below count fault)
    (hmatches : routine.Matches likeness table table' routine') (hroom : slack.Room limit below limit' below')
    (hrefuses' : routine'.Refuses limit' below' count fault') {world world' : World}
    (hworld : world.Like likeness slack world') :
    EndsAlike likeness slack (.error (.atEntry fault routine.name)) world (.error (.atEntry fault' routine'.name))
      world' := by
  have hfull := hroom.endsAlike hworld (LocatedFault.atEntry · routine'.name) fun _ ↦ rfl
  rw [hmatches.name]
  cases hrefuses with
  | full hless =>
    cases hrefuses' with
    | full _ | frameFull _ _ _ => exact hfull
    | mismatch hfits' _ => exact .cut (hroom.allowed hless hfits') (.of_eq hworld.sink.written)
  | mismatch hfits harity =>
    cases hrefuses' with
    | full hless' => exact absurd hfits (Nat.not_le_of_lt (hroom.full hless'))
    | mismatch _ _ =>
      rw [hmatches.name, hmatches.parameters]
      exact .fault _ hworld
    | frameFull _ harity' _ => exact absurd (harity'.trans hmatches.parameters.symm) harity
  | frameFull _ harity _ =>
    cases hrefuses' with
    | full _ | frameFull _ _ _ => exact hfull
    | mismatch _ harity' => exact absurd (harity.trans hmatches.parameters) harity'

/-- A call that is refused, where one of an alike function has the room that it needs, finds its stack full. -/
theorem Routine.Refuses.excused (hrefuses : routine.Refuses limit below count fault)
    (hmatches : routine.Matches likeness table table' routine') (hroom : slack.Room limit below limit' below')
    (harity' : count + 1 = routine'.unit.parameterCount) (hfits' : below' + (count + 2) ≤ limit')
    (hframe' : below' + (1 + routine'.unit.slotCount + recordSize) ≤ limit') : slack.Excuses fault := by
  cases hrefuses with
  | full hless => exact hroom.allowed hless hfits'
  | mismatch _ harity => exact absurd (harity'.trans hmatches.parameters.symm) harity
  | frameFull _ _ hless =>
    rw [hmatches.slots] at hless
    exact hroom.allowed hless hframe'

/-- No call is refused where one of an alike function has the room that it needs on a smaller stack. -/
theorem Routine.Matches.not_refuses (hmatches : routine.Matches likeness table table' routine')
    (hroom : slack.Room limit below limit' below') (harity : count + 1 = routine.unit.parameterCount)
    (hfits : below + (count + 2) ≤ limit) (hframe : below + (1 + routine.unit.slotCount + recordSize) ≤ limit) :
    ¬ routine'.Refuses limit' below' count fault' := by
  rintro (hless' | ⟨-, harity'⟩ | ⟨-, -, hless'⟩)
  · exact absurd hfits (Nat.not_le_of_lt (hroom.full hless'))
  · exact absurd (harity.trans hmatches.parameters) harity'
  · rw [hmatches.slots] at hframe
    exact absurd hframe (Nat.not_le_of_lt (hroom.full hless'))

end Refusals

/-- Several alike values come back through words as alike values. -/
theorem ConstantTable.Valid.carryAll_like {likeness : Likeness} {shared : Prop} {registry registry' : Registry}
    {table table' : ConstantTable} (hvalid : table.Valid registry) (hvalid' : table'.Valid registry')
    (hshared : shared → table = table') {values values' : List Value}
    (hlike : List.Forall₂ (Value.Like likeness) values values') {records records' : List Record}
    (hvalues : ∀ value ∈ values, value.Valid registry records)
    (hvalues' : ∀ value ∈ values', value.Valid registry' records')
    (hcarries : likeness.Carries shared registry (table.carryAll values).2 (table'.carryAll values').2) :
    List.Forall₂ (Value.Like likeness) (table.carryAll values).1 (table'.carryAll values').1 ∧
      (shared → (table.carryAll values).2 = (table'.carryAll values').2) := by
  induction hlike generalizing table table' with
  | nil => exact ⟨.nil, hshared⟩
  | @cons value value' rest rest' hvalue _ ih =>
    have hfirst := hvalues value List.mem_cons_self
    have hfirst' := hvalues' value' List.mem_cons_self
    obtain ⟨hcarried, hsame⟩ := hvalue.carry hshared hvalid hvalid' hfirst hfirst'
      (hcarries.of_extends (ConstantTable.carryAll_extends _ rest) (ConstantTable.carryAll_extends _ rest'))
    obtain ⟨hothers, hlast⟩ := ih (hvalid.carry hfirst).1 (hvalid'.carry hfirst').1 hsame
      (fun other hother ↦ hvalues other (List.mem_cons_of_mem _ hother))
      (fun other hother ↦ hvalues' other (List.mem_cons_of_mem _ hother)) hcarries
    exact ⟨.cons hcarried hothers, hlast⟩

/-- The words of the first frame. -/
theorem CallStack.words_entered (world : World) (constants : ConstantTable) {routine : Routine}
    (receiver : Value) {arguments : List Value} (harity : arguments.length + 1 = routine.unit.parameterCount)
    (hslots : routine.unit.parameterCount ≤ routine.unit.slotCount) :
    (CallStack.entered world constants routine receiver arguments).words =
      1 + routine.unit.slotCount + recordSize := by
  simp only [words, entered, List.map_cons, List.map_nil, List.sum_cons, List.sum_nil, Level.words,
    List.length_append, ConstantTable.length_carryAll, List.length_cons, List.length_replicate, List.length_nil]
  omega

/-- Calls that begin with alike functions and values are alike. -/
theorem CallStack.entered_like {likeness : Likeness} {slack : Slack} {shared : Prop}
    {registry registry' : Registry} {table table' : ConstantTable} (hvalid : table.Valid registry)
    (hvalid' : table'.Valid registry') (hprogram : likeness.Sound table table') (hshared : shared → table = table')
    {world world' : World} (hworld : world.Like likeness slack world') {routine routine' : Routine}
    (hmatches : routine.Matches likeness table table' routine') {receiver receiver' : Value}
    {arguments arguments' : List Value}
    (hlike : List.Forall₂ (Value.Like likeness) (receiver :: arguments) (receiver' :: arguments'))
    (hvalues : ∀ value ∈ receiver :: arguments, value.Valid registry world.store.records)
    (hvalues' : ∀ value ∈ receiver' :: arguments', value.Valid registry' world'.store.records)
    (hcarries : likeness.Carries shared registry
      (CallStack.entered world table routine receiver arguments).constants
      (CallStack.entered world' table' routine' receiver' arguments').constants) :
    (CallStack.entered world table routine receiver arguments).Like likeness slack shared
      (CallStack.entered world' table' routine' receiver' arguments') := by
  obtain ⟨hcarried, hsame⟩ := hvalid.carryAll_like hvalid' hshared hlike hvalues hvalues' hcarries
  have hextends := table.carryAll_extends (receiver :: arguments)
  have hextends' := table'.carryAll_extends (receiver' :: arguments')
  refine ⟨⟨hworld, hsame, hprogram.mono hextends hextends', hmatches.name, rfl, ?_, .nil, .nil⟩,
    hmatches.code.mono hextends hextends'⟩
  simp only [entered, ← hmatches.parameters, ← hmatches.slots]
  exact List.rel_append hcarried (Value.Like.replicate_undefined _)

section Answers

variable {likeness : Likeness} {slack : Slack} {shared : Prop} {registry registry' : Registry}
  {known known' : List Value} {machine machine' : Machine} {limit base limit' base' : Nat}
  {contents contents' : List Word} {world world' : World} {constants constants' : ConstantTable}
  {routine routine' : Routine} {receiver receiver' : Value} {arguments arguments' : List Value}

/-- Machines at rest answer alike calls alike. -/
theorem Machine.Rests.endsAlike
    (hrests : machine.Rests registry known limit contents base world constants)
    (hrests' : machine'.Rests registry' known' limit' contents' base' world' constants')
    (hroutine : registry.functions routine.identity = some (.compiled routine))
    (hroutine' : registry'.functions routine'.identity = some (.compiled routine'))
    (hvalues : ∀ value ∈ receiver :: arguments, value.Valid registry world.store.records)
    (hvalues' : ∀ value ∈ receiver' :: arguments', value.Valid registry' world'.store.records)
    (hprogram : likeness.Sound constants constants') (hshared : shared → constants = constants')
    (hworld : world.Like likeness slack world')
    (hfunctions : likeness.functions (.compiled routine) (.compiled routine'))
    (hlike : List.Forall₂ (Value.Like likeness) (receiver :: arguments) (receiver' :: arguments'))
    (hroom : slack.Room limit contents.length limit' contents'.length)
    {result result' : Except LocatedFault Value} {later later' : World} {final final' : ConstantTable}
    (hanswers : routine.Answers limit contents.length world constants receiver arguments result later final)
    (hanswers' : routine'.Answers limit' contents'.length world' constants' receiver' arguments' result' later'
      final')
    (hcarries : likeness.Carries shared registry final final') :
    EndsAlike likeness slack result later result' later' := by
  have hmatches : routine.Matches likeness constants constants' routine' := by
    obtain ⟨found, hsame, hmatches⟩ := hprogram.compiled hfunctions
    cases hsame
    exact hmatches
  have hslots := (hrests.code _ _ hroutine).parameters
  have hslots' := (hrests'.code _ _ hroutine').parameters
  have hcount : arguments'.length = arguments.length := (Nat.succ.inj hlike.length_eq).symm
  cases hanswers with
  | refused hrefuses =>
    cases hanswers' with
    | refused hrefuses' =>
      rw [hcount] at hrefuses'
      exact hrefuses.endsAlike hmatches hroom hrefuses' hworld
    | runs harity' hfits' hframe' hstops' =>
      rw [CallStack.words_entered _ _ _ harity' hslots'] at hframe'
      rw [hcount] at harity' hfits'
      exact .cut (hrefuses.excused hmatches hroom harity' hfits' hframe')
        ((Sink.Precedes.of_eq hworld.sink.written).trans hstops'.precedes)
  | runs harity hfits hframe hstops =>
    cases hanswers' with
    | refused hrefuses' =>
      rw [CallStack.words_entered _ _ _ harity hslots] at hframe
      rw [hcount] at hrefuses'
      exact absurd hrefuses' (hmatches.not_refuses hroom harity hfits hframe)
    | runs harity' hfits' hframe' hstops' =>
      have hextends := constants.box_extends (.function (.compiled routine))
      have hextends' := constants'.box_extends (.function (.compiled routine'))
      have hfunction : Value.Valid registry [] (.function (.compiled routine)) := hroutine
      have hfunction' : Value.Valid registry' [] (.function (.compiled routine')) := hroutine'
      have hboxed := hrests.entries.box rfl hfunction
      have hboxed' := hrests'.entries.box rfl hfunction'
      have hcode := hrests.code.mono hextends
      have hcode' := hrests'.code.mono hextends'
      have hsame : shared → (constants.box (.function (.compiled routine))).2 =
          (constants'.box (.function (.compiled routine'))).2 := by
        intro hone
        rw [hshared hone, (hcarries.exact hone).eq (.function hfunctions)]
      have hentered := CallStack.entered_like hboxed hboxed' (hprogram.mono hextends hextends') hsame hworld
        ⟨hmatches.name, hmatches.parameters, hmatches.slots, hmatches.code.mono hextends hextends'⟩ hlike
        hvalues hvalues' (hcarries.of_extends hstops.extends hstops'.extends)
      exact hentered.endsAlike
        (CallStack.entered_valid hrests.visible hboxed hcode hroutine hvalues harity)
        (CallStack.entered_valid hrests'.visible hboxed' hcode' hroutine' hvalues' harity') hroom hstops hstops'
        hcarries

end Answers

end ScriptMachine
