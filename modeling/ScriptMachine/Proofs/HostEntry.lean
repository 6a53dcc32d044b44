import ScriptMachine.Proofs.Runs

/-!
# Calls of the host

When the host calls a compiled function, the machine puts the word of the function, the receiver and the
arguments on its stack and builds the first frame over them. From there on it mirrors a single call in
progress, `CallStack.entered`. `Machine.Rests.invokeRoutine` puts entry, run and return together: the call
always comes to an end, and it leaves the machine between calls again.
-/

set_option autoImplicit false
set_option relaxedAutoImplicit false

namespace ScriptMachine

/-! ### Receiver and arguments -/

/-- The values that come back when several values are put into words, and the table after that. -/
def ConstantTable.carryAll (table : ConstantTable) : List Value → List Value × ConstantTable
  | [] => ([], table)
  | value :: rest =>
    let carried := table.carry value
    let others := carried.2.carryAll rest
    (carried.1 :: others.1, others.2)

/-- As many values come back as are put in. -/
theorem ConstantTable.length_carryAll (table : ConstantTable) (values : List Value) :
    (table.carryAll values).1.length = values.length := by
  induction values generalizing table with
  | nil => rfl
  | cons value rest ih =>
    rw [ConstantTable.carryAll]
    exact congrArg (· + 1) (ih _)

/-- Carrying several values extends the table. -/
theorem ConstantTable.carryAll_extends (table : ConstantTable) (values : List Value) :
    table.Extends (table.carryAll values).2 := by
  induction values generalizing table with
  | nil => exact ConstantTable.Extends.refl table
  | cons value rest ih => exact (table.carry_extends value).trans (ih _)

/-- A table from which valid values have come back is valid, and so are the values. -/
theorem ConstantTable.Valid.carryAll {table : ConstantTable} {registry : Registry}
    (hvalid : table.Valid registry) {records : List Record} {values : List Value}
    (hvalues : ∀ value ∈ values, value.Valid registry records) :
    (table.carryAll values).2.Valid registry ∧
      ∀ value ∈ (table.carryAll values).1, value.Valid registry records := by
  induction values generalizing table with
  | nil => exact ⟨hvalid, by rintro _ ⟨⟩⟩
  | cons value rest ih =>
    obtain ⟨htable, hcarried⟩ := hvalid.carry (hvalues value List.mem_cons_self)
    obtain ⟨hlater, hrest⟩ := ih htable fun other hother ↦ hvalues other (List.mem_cons_of_mem _ hother)
    refine ⟨hlater, fun found hfound ↦ ?_⟩
    rcases List.mem_cons.mp hfound with rfl | hother
    · exact hcarried
    · exact hrest found hother

/-- As long as all positions fit into a word, valid values come back as themselves. -/
theorem ConstantTable.Valid.carryAll_eq {table : ConstantTable} {registry : Registry}
    (hvalid : table.Valid registry) {records : List Record} {values : List Value}
    (hvalues : ∀ value ∈ values, value.Valid registry records)
    (hsize : (table.carryAll values).2.size ≤ Word.indexLimit) : (table.carryAll values).1 = values := by
  induction values generalizing table with
  | nil => rfl
  | cons value rest ih =>
    have hvalue := hvalues value List.mem_cons_self
    have hfirst := Nat.le_trans ((table.carry value).2.carryAll_extends rest).size_le hsize
    have hrest := ih (hvalid.carry hvalue).1 (fun other hother ↦ hvalues other (List.mem_cons_of_mem _ hother))
      hsize
    rw [ConstantTable.carryAll]
    dsimp only
    rw [hvalid.carry_eq hvalue hfirst, hrest]

/-- A machine stopped with more words on its stack, because it was full. -/
def Activity.Overflows (activity : Activity) (snapshot : Snapshot) (registry : Registry) : Prop :=
  ∃ (constants : ConstantTable) (above : List Word),
    activity.Realizes { snapshot with constants := constants, contents := snapshot.contents ++ above } ∧
      constants.Valid registry ∧ snapshot.constants.Extends constants

namespace Activity.Realizes

variable {activity : Activity} {snapshot : Snapshot} {registry : Registry}

/-- A valid value is put on top of the stack, unless it is full. -/
theorem pushValue (hrealizes : activity.Realizes snapshot) (hconstants : snapshot.constants.Valid registry)
    {value : Value} (hvalue : value.Valid registry snapshot.world.store.records) :
    ∃ (word : Word) (encoded : Activity), Execution.encode value activity = .ok word encoded ∧
      ((∃ next : Activity, Execution.push word encoded = .ok () next ∧
          next.Realizes { snapshot with
            constants := (snapshot.constants.carry value).2, contents := snapshot.contents ++ [word] } ∧
          (snapshot.constants.carry value).2.value? snapshot.world.store.records word =
            some (snapshot.constants.carry value).1) ∨
        ∃ final : Activity, Execution.push word encoded = .error (.stackOverflow snapshot.limit) final ∧
          final.Overflows snapshot registry ∧ snapshot.limit < snapshot.contents.length + 1) := by
  obtain ⟨word, encoded, hencode, hencoded, hword⟩ := hrealizes.encode hvalue.present
  refine ⟨word, encoded, hencode, ?_⟩
  rcases hencoded.push word with ⟨next, hpush, hnext⟩ | ⟨hfull, hneeded⟩
  · exact Or.inl ⟨next, hpush, hnext, hword⟩
  · refine Or.inr ⟨encoded, hfull, ⟨(snapshot.constants.carry value).2, [], ?_,
      (hconstants.carry hvalue).1, snapshot.constants.carry_extends value⟩, hneeded⟩
    rw [List.append_nil]
    exact hencoded

/-- Valid values are put on top of the stack in order, unless it is full. -/
theorem pushAll (hrealizes : activity.Realizes snapshot) (hconstants : snapshot.constants.Valid registry)
    {values : List Value} (hvalues : ∀ value ∈ values, value.Valid registry snapshot.world.store.records) :
    (∃ (words : List Word) (next : Activity), Execution.pushAll values activity = .ok () next ∧
        next.Realizes { snapshot with
          constants := (snapshot.constants.carryAll values).2, contents := snapshot.contents ++ words } ∧
        (snapshot.constants.carryAll values).2.HoldsAll snapshot.world.store.records words
          (snapshot.constants.carryAll values).1) ∨
      ∃ final : Activity,
        Execution.pushAll values activity = .error (.stackOverflow snapshot.limit) final ∧
          final.Overflows snapshot registry ∧
          snapshot.limit < snapshot.contents.length + values.length := by
  induction values generalizing activity snapshot with
  | nil =>
    refine Or.inl ⟨[], activity, rfl, ?_, List.Forall₂.nil⟩
    rw [List.append_nil]
    exact hrealizes
  | cons value rest ih =>
    obtain ⟨word, encoded, hencode, houtcome⟩ :=
      hrealizes.pushValue hconstants (hvalues value List.mem_cons_self)
    rw [Execution.pushAll, Execution.bind_of_ok hencode]
    rcases houtcome with ⟨next, hpush, hnext, hword⟩ | ⟨final, hfull, hoverflows, hneeded⟩
    · rw [Execution.bind_of_ok hpush]
      have hcarried := (hconstants.carry (hvalues value List.mem_cons_self)).1
      rcases ih hnext hcarried fun other hother ↦ hvalues other (List.mem_cons_of_mem _ hother) with
        ⟨words, last, hrest, hlast, hwords⟩ |
        ⟨final, hfull, ⟨constants, above, hfinal, hvalid, hextends⟩, hneeded⟩
      · refine Or.inl ⟨word :: words, last, hrest, ?_, List.Forall₂.cons ?_ hwords⟩
        · rw [List.append_cons]
          exact hlast
        · exact ConstantTable.value?_mono (ConstantTable.carryAll_extends _ rest)
            (Store.KeepsLayouts.refl _) hword
      · refine Or.inr ⟨final, hfull, ⟨constants, word :: above, ?_, hvalid,
          (snapshot.constants.carry_extends value).trans hextends⟩, ?_⟩
        · rw [List.append_cons]
          exact hfinal
        · simp only [List.length_append, List.length_cons, List.length_nil] at hneeded ⊢
          omega
    · rw [Execution.bind_of_error hfull]
      refine Or.inr ⟨final, rfl, hoverflows, ?_⟩
      rw [List.length_cons]
      omega

end Activity.Realizes

/-! ### The first frame -/

/-- The only call in progress when the host has called a routine. -/
def CallStack.entered (world : World) (constants : ConstantTable) (routine : Routine) (receiver : Value)
    (arguments : List Value) : CallStack :=
  let carried := constants.carryAll (receiver :: arguments)
  { world := world
    constants := carried.2
    current :=
      ⟨routine, 0,
        carried.1 ++ List.replicate (routine.unit.slotCount - routine.unit.parameterCount) .undefined, []⟩
    callers := [] }

section Entry

variable {registry : Registry} {known : List Value} {limit base : Nat} {contents : List Word}
  {world : World} {constants : ConstantTable} {routine : Routine} {receiver : Value}
  {arguments : List Value}

/-- The call that a host begins is valid. -/
theorem CallStack.entered_valid (hworld : world.Valid registry known) (hconstants : constants.Valid registry)
    (hcode : registry.Verified constants)
    (hroutine : registry.functions routine.identity = some (.compiled routine))
    (hvalues : ∀ value ∈ receiver :: arguments, value.Valid registry world.store.records)
    (harity : arguments.length + 1 = routine.unit.parameterCount) :
    (CallStack.entered world constants routine receiver arguments).Valid registry known := by
  obtain ⟨htable, hcarried⟩ := hconstants.carryAll hvalues
  have hlater := hcode.mono (constants.carryAll_extends (receiver :: arguments))
  have hverified := hlater _ _ hroutine
  have hlevel : Level.Valid (CallStack.entered world constants routine receiver arguments).current registry
      world.store.records := by
    refine ⟨hroutine, ?_, fun value hvalue ↦ ?_, by rintro _ ⟨⟩⟩
    · have hslots := hverified.parameters
      simp only [CallStack.entered, List.length_append, ConstantTable.length_carryAll, List.length_cons,
        List.length_replicate]
      omega
    · rcases List.mem_append.mp hvalue with hold | hnew
      · exact hcarried value hold
      · rw [(List.mem_replicate.mp hnew).2]
        trivial
  exact ⟨⟨hworld, htable, hlater, hlevel, by rintro _ ⟨⟩, by rintro _ ⟨⟩⟩,
    hverified.safe⟩

/-- The words that a call of the host needs at least: its function, receiver and arguments while they are
put on the stack, and then the first frame. -/
def CodeUnit.entryWords (unit : CodeUnit) (argumentCount : Nat) : Nat :=
  max (argumentCount + 2) (1 + unit.slotCount + recordSize)

/-- Why a call of the host is refused on top of some words, in the order of the checks: there is no room for
function, receiver and arguments, or these are too many or too few, or there is no room for the first frame. -/
inductive Routine.Refuses (routine : Routine) (limit below argumentCount : Nat) : Fault → Prop where
  | full (hneeded : limit < below + (argumentCount + 2)) :
      Refuses routine limit below argumentCount (.stackOverflow limit)
  | mismatch (hroom : below + (argumentCount + 2) ≤ limit)
      (harity : argumentCount + 1 ≠ routine.unit.parameterCount) :
      Refuses routine limit below argumentCount
        (.arityMismatch routine.name (routine.unit.parameterCount - 1) argumentCount)
  | frameFull (hroom : below + (argumentCount + 2) ≤ limit)
      (harity : argumentCount + 1 = routine.unit.parameterCount)
      (hneeded : limit < below + (1 + routine.unit.slotCount + recordSize)) :
      Refuses routine limit below argumentCount (.stackOverflow limit)

/-- A call that is refused has too many or too few arguments, or needs more words than there are. -/
theorem Routine.Refuses.cases {routine : Routine} {limit below argumentCount : Nat} {fault : Fault}
    (hrefuses : routine.Refuses limit below argumentCount fault) :
    fault = .stackOverflow limit ∧ limit < below + routine.unit.entryWords argumentCount ∨
      argumentCount + 1 ≠ routine.unit.parameterCount ∧
        fault = .arityMismatch routine.name (routine.unit.parameterCount - 1) argumentCount := by
  have hleast : argumentCount + 2 ≤ routine.unit.entryWords argumentCount := Nat.le_max_left _ _
  have hframe : 1 + routine.unit.slotCount + recordSize ≤ routine.unit.entryWords argumentCount :=
    Nat.le_max_right _ _
  cases hrefuses with
  | full hneeded => exact Or.inl ⟨rfl, by omega⟩
  | mismatch _ harity => exact Or.inr ⟨harity, rfl⟩
  | frameFull _ _ hneeded => exact Or.inl ⟨rfl, by omega⟩

/-- The words of a call are those of its function, its receiver and its arguments. -/
theorem Execution.enterFromHost_eq (frame : Frame) (receiver : Value) (arguments : List Value) :
    Execution.enterFromHost frame receiver arguments = (do
      Execution.push frame.word
      Execution.pushAll (receiver :: arguments)
      Execution.enter frame.routine arguments.length hostReturn frame.word) := by
  simp only [Execution.enterFromHost, Execution.pushAll, bind_assoc]

/-- The only frame when the host has called a routine, given the words of receiver and arguments. -/
def FrameChain.entered (contents : List Word) (base : Nat) (frame : Frame) (words : List Word) : FrameChain :=
  ⟨contents, base, Segment.entered frame words, []⟩

/-- What a machine has on its stack when the host has called a routine. -/
theorem FrameChain.snapshot_entered (frame : Frame) (words : List Word) :
    (FrameChain.entered contents base frame words).snapshot world constants limit =
      ⟨world, constants, limit,
        (contents ++ [frame.word]) ++ (words ++
            List.replicate (frame.routine.unit.slotCount - frame.routine.unit.parameterCount) Word.undefined) ++
          [⟨UInt32.ofNat base⟩, hostReturn, frame.word],
        (contents ++ [frame.word]).length, frame, 0⟩ := by
  simp [FrameChain.entered, Segment.entered, FrameChain.snapshot, FrameChain.contents, FrameChain.base,
    FrameChain.stacked, FrameChain.savedOffset, FrameChain.savedWord, FrameChain.baseOf]

/-- A machine that the host lets call a routine mirrors the call, unless its stack is full or the
arguments are too many or too few. -/
theorem Activity.Realizes.enterFromHost {activity : Activity} {word : Word}
    (hrealizes : activity.Realizes ⟨world, constants, limit, contents, base, ⟨routine, word⟩, 0⟩)
    (hword : constants.constant? word = some (.function (.compiled routine)))
    (hconstants : constants.Valid registry) (hverified : routine.unit.Verified constants)
    (hvalues : ∀ value ∈ receiver :: arguments, value.Valid registry world.store.records)
    (hbase : base < 4294967296) :
    (∃ (start : Activity) (words : List Word),
        Execution.enterFromHost ⟨routine, word⟩ receiver arguments activity = .ok () start ∧
        Mirrors limit start (FrameChain.entered contents base ⟨routine, word⟩ words)
          (CallStack.entered world constants routine receiver arguments) ∧
        arguments.length + 1 = routine.unit.parameterCount ∧
        contents.length + (arguments.length + 2) ≤ limit) ∨
      ∃ (fault : Fault) (final : Activity) (later : ConstantTable),
        Execution.enterFromHost ⟨routine, word⟩ receiver arguments activity = .error fault final ∧
        EndsAt limit final contents world later ∧ later.Valid registry ∧ constants.Extends later ∧
        routine.Refuses limit contents.length arguments.length fault := by
  have hends : ∀ {final : Activity} {later : ConstantTable} (above : List Word),
      final.Realizes ⟨world, later, limit, contents ++ above, base, ⟨routine, word⟩, 0⟩ →
        EndsAt limit final contents world later :=
    fun above hfinal ↦ ⟨_, above, hfinal, rfl, rfl, rfl, rfl⟩
  rw [Execution.enterFromHost_eq]
  rcases hrealizes.push word with ⟨first, hfirst, hfirstRealizes⟩ | ⟨hfull, hneeded⟩
  swap
  · rw [Execution.bind_of_error hfull]
    refine Or.inr ⟨_, _, _, rfl, hends [] ?_, hconstants, ConstantTable.Extends.refl _, .full ?_⟩
    · rw [List.append_nil]
      exact hrealizes
    · dsimp only at hneeded
      omega
  rw [Execution.bind_of_ok hfirst]
  rcases hfirstRealizes.pushAll hconstants hvalues with ⟨words, second, hsecond, hsecondRealizes, hwords⟩ |
    ⟨final, hfull, ⟨later, above, hfinal, hvalid, hextends⟩, hneeded⟩
  swap
  · rw [Execution.bind_of_error hfull]
    refine Or.inr ⟨_, _, _, rfl, hends (word :: above) ?_, hvalid, hextends, .full ?_⟩
    · rw [List.append_cons]
      exact hfinal
    · simp only [List.length_append, List.length_cons, List.length_nil] at hneeded
      omega
  rw [Execution.bind_of_ok hsecond]
  have hlength : words.length = arguments.length + 1 := by
    rw [hwords.length_eq, ConstantTable.length_carryAll, List.length_cons]
  have hextends := constants.carryAll_extends (receiver :: arguments)
  have hvalid := (hconstants.carryAll hvalues).1
  have hpushed : EndsAt limit second contents world (constants.carryAll (receiver :: arguments)).2 := by
    refine hends (word :: words) ?_
    rw [List.append_cons]
    exact hsecondRealizes
  have hroom : contents.length + (arguments.length + 2) ≤ limit := by
    have hfits := hsecondRealizes.length_le_limit
    simp only [List.length_append, List.length_cons, List.length_nil] at hfits
    omega
  by_cases harity : arguments.length + 1 = routine.unit.parameterCount
  · rcases hsecondRealizes.enter rfl hlength harity hverified.parameters hostReturn word with
      ⟨start, hstart, hstartRealizes⟩ | ⟨hfull, hneeded⟩
    · have hcount : (constants.carryAll (receiver :: arguments)).1.length = routine.unit.parameterCount := by
        rw [ConstantTable.length_carryAll, List.length_cons, harity]
      refine Or.inl ⟨start, words, hstart, ⟨?_, Segment.holds_entered (ConstantTable.constant?_mono hextends hword)
        hvalid.undefined hverified.parameters hwords hcount, List.Forall₂.nil, by rintro _ ⟨⟩, hbase⟩, harity, hroom⟩
      rw [FrameChain.snapshot_entered]
      exact hstartRealizes
    · rw [hfull]
      refine Or.inr ⟨_, _, _, rfl, hpushed, hvalid, hextends, .frameFull hroom harity ?_⟩
      simp only [List.length_append, List.length_cons, List.length_nil] at hneeded
      omega
  · have hrefused : Execution.enter routine arguments.length hostReturn word second =
        .error (.arityMismatch routine.name (routine.unit.parameterCount - 1) arguments.length) second := by
      unfold Execution.enter
      dsimp only
      rw [if_pos harity]
    rw [hrefused]
    exact Or.inr ⟨_, _, _, rfl, hpushed, hvalid, hextends, .mismatch hroom harity⟩

/-! ### Whole calls -/

/-- The activity in which a call of a compiled function begins. -/
def Machine.Enters (machine : Machine) (routine : Routine) (receiver : Value) (arguments : List Value)
    (start : Activity) : Prop :=
  let (word, boxed) := machine.box (.function (.compiled routine))
  Execution.enterFromHost ⟨routine, word⟩ receiver arguments ⟨boxed, ⟨routine, word⟩, 0⟩ = .ok () start

/-- A call begins in one activity at most. -/
theorem Machine.Enters.unique {machine : Machine} {start other : Activity}
    (hstart : machine.Enters routine receiver arguments start)
    (hother : machine.Enters routine receiver arguments other) : start = other :=
  (EStateM.Result.ok.inj (hstart.symm.trans hother)).2

/-- More steps than a call takes do not change its outcome. -/
theorem Machine.invokeRoutine_mono {machine : Machine} {steps more : Nat} (hle : steps ≤ more)
    {outcome : CallOutcome}
    (hinvoked : machine.invokeRoutine steps routine receiver arguments = some outcome) :
    machine.invokeRoutine more routine receiver arguments = some outcome := by
  unfold Machine.invokeRoutine at hinvoked ⊢
  dsimp only at hinvoked ⊢
  split at hinvoked
  case h_1 => exact hinvoked
  case h_2 activity hentered =>
    cases hrun : activity.run steps with
    | none =>
      rw [hrun] at hinvoked
      cases hinvoked
    | some found =>
      rw [hrun] at hinvoked
      rw [Activity.run_mono hle hrun]
      exact hinvoked

/-- A call ends as its run ends, with the stack cut back when it has failed. -/
theorem Machine.Enters.invokeRoutine_eq {machine : Machine} {start : Activity}
    (henters : machine.Enters routine receiver arguments start) (steps : Nat) :
    machine.invokeRoutine steps routine receiver arguments =
      (start.run steps).map (Machine.cutBack machine.stack.top machine.stack.base) := by
  unfold Machine.Enters at henters
  dsimp only at henters
  unfold Machine.invokeRoutine
  dsimp only
  rw [henters]
  dsimp only
  rcases start.run steps with _ | ⟨_ | _, _⟩ <;> rfl

namespace Machine.Rests

variable {machine : Machine}

/-- A machine that rests has the word of a function that it calls on hand. -/
theorem realizes_box (hrests : machine.Rests registry known limit contents base world constants)
    (routine : Routine) :
    machine.box (.function (.compiled routine)) =
        ((constants.box (.function (.compiled routine))).1,
          { machine with constants := (constants.box (.function (.compiled routine))).2 }) ∧
      Activity.Realizes
        ⟨{ machine with constants := (constants.box (.function (.compiled routine))).2 },
          ⟨routine, (constants.box (.function (.compiled routine))).1⟩, 0⟩
        ⟨world, (constants.box (.function (.compiled routine))).2, limit, contents, base,
          ⟨routine, (constants.box (.function (.compiled routine))).1⟩, 0⟩ := by
  have hold := hrests.realizes.inside ⟨routine, Word.zero⟩ 0
  refine ⟨by rw [Machine.box, hrests.realizes.constants], ?_⟩
  exact ⟨hold.globals, hold.sink, hold.hosts,
    hold.heap.mono (constants.box_extends (.function (.compiled routine))), rfl, hold.fits,
    hold.contents, hold.base, hold.limit, rfl, rfl⟩

/-- A call of a compiled function of a machine that rests begins with a machine that mirrors it, or it is
refused because the stack is full or the arguments are too many or too few. -/
theorem enters (hrests : machine.Rests registry known limit contents base world constants)
    (hbase : base < 4294967296)
    (hroutine : registry.functions routine.identity = some (.compiled routine))
    (hvalues : ∀ value ∈ receiver :: arguments, value.Valid registry world.store.records)
    (hsize : (constants.box (.function (.compiled routine))).2.size ≤ Word.indexLimit) :
    (∃ (start : Activity) (chain : FrameChain),
        machine.Enters routine receiver arguments start ∧
        (arguments.length + 1 = routine.unit.parameterCount ∧
          contents.length + (arguments.length + 2) ≤ limit) ∧ chain.entry = contents ∧
        chain.hostBase = base ∧
        Mirrors limit start chain (CallStack.entered world
          (constants.box (.function (.compiled routine))).2 routine receiver arguments) ∧
        (CallStack.entered world (constants.box (.function (.compiled routine))).2 routine receiver
          arguments).Valid registry known) ∨
      (∀ start : Activity, ¬ machine.Enters routine receiver arguments start) ∧
        ∃ (fault : Fault) (later : Machine) (final : ConstantTable),
          (∀ steps : Nat, machine.invokeRoutine steps routine receiver arguments =
            some (.error (.atEntry fault routine.name), later)) ∧
          later.Rests registry known limit contents base world final ∧
          (constants.box (.function (.compiled routine))).2.Extends final ∧
          routine.Refuses limit contents.length arguments.length fault := by
  have hfunction : Value.Valid registry [] (.function (.compiled routine)) := hroutine
  have hboxedValid := hrests.entries.box rfl hfunction
  have hboxedCode := hrests.code.mono (constants.box_extends (.function (.compiled routine)))
  obtain ⟨hboxed, hstart⟩ := hrests.realizes_box routine
  have htop : machine.stack.top = contents.length := hrests.realizes.top_eq
  have hbaseEq : machine.stack.base = base := hrests.realizes.base
  rcases hstart.enterFromHost (hrests.entries.constant?_box hfunction hsize) hboxedValid
      (hboxedCode _ _ hroutine) hvalues hbase with
    ⟨start, words, hentered, hmirrors, harity⟩ | ⟨fault, final, later, hrefused, hends, hlater, hextends, hfault⟩
  · refine Or.inl ⟨start, _, ?_, harity, rfl, rfl, hmirrors,
      CallStack.entered_valid hrests.visible hboxedValid hboxedCode hroutine hvalues harity.1⟩
    unfold Machine.Enters
    rw [hboxed]
    exact hentered
  · refine Or.inr ⟨fun start hstarts ↦ ?_, fault, final.machine.unwind machine.stack.top machine.stack.base,
      later, fun steps ↦ ?_, ?_, hextends, hfault⟩
    · unfold Machine.Enters at hstarts
      rw [hboxed] at hstarts
      dsimp only at hstarts
      rw [hrefused] at hstarts
      cases hstarts
    · unfold Machine.invokeRoutine
      rw [hboxed]
      dsimp only
      rw [hrefused]
    · rw [htop, hbaseEq]
      exact ⟨hends.unwind base, hrests.visible, hlater, hboxedCode.mono hextends⟩

/-- Calling a compiled function of a machine that rests always has an outcome, which is that of the call,
unless the stack was full from the beginning or the arguments were too many or too few. -/
theorem exists_invokeRoutine (hrests : machine.Rests registry known limit contents base world constants)
    (hbase : base < 4294967296)
    (hroutine : registry.functions routine.identity = some (.compiled routine))
    (hvalues : ∀ value ∈ receiver :: arguments, value.Valid registry world.store.records)
    (hsize : (constants.box (.function (.compiled routine))).2.size ≤ Word.indexLimit) :
    (∃ outcome : CallOutcome,
        (∀ steps : Nat, CallStack.rankBase ^ (limit + 1) ≤ steps →
          machine.invokeRoutine steps routine receiver arguments = some outcome) ∧
        ((arguments.length + 1 = routine.unit.parameterCount ∧
            (CallStack.entered world (constants.box (.function (.compiled routine))).2 routine receiver
              arguments).Settles registry known limit contents base outcome) ∨
          ∃ (located : LocatedFault) (later : Machine) (final : ConstantTable),
            outcome = (.error located, later) ∧
            later.Rests registry known limit contents base world final ∧
            (constants.box (.function (.compiled routine))).2.Extends final ∧
            (located.fault = .stackOverflow limit ∧
                limit < contents.length + routine.unit.entryWords arguments.length ∨
              arguments.length + 1 ≠ routine.unit.parameterCount ∧
                located.fault =
                  .arityMismatch routine.name (routine.unit.parameterCount - 1) arguments.length))) ∨
      4294967296 < limit ∧
        ∃ start : Activity, machine.Enters routine receiver arguments start ∧ start.Crowds := by
  have htop : machine.stack.top = contents.length := hrests.realizes.top_eq
  have hbaseEq : machine.stack.base = base := hrests.realizes.base
  rcases hrests.enters hbase hroutine hvalues hsize with
    ⟨start, chain, henters, ⟨harity, -⟩, hentry, hhost, hmirrors, hvalid⟩ |
    ⟨-, fault, later, final, hrefused, hlater, hextends, hrefuses⟩
  · rcases hmirrors.exists_run hvalid (hvalid.rank_lt_of_callers rfl limit) with
      ⟨outcome, hrun, hsettles⟩ | ⟨hlarge, hcrowds⟩
    · refine Or.inl ⟨Machine.cutBack machine.stack.top machine.stack.base outcome, fun steps hsteps ↦ ?_,
        Or.inl ⟨harity, ?_⟩⟩
      · rw [henters.invokeRoutine_eq, Activity.run_mono hsteps hrun]
        rfl
      · rw [htop, hbaseEq]
        rw [hentry, hhost] at hsettles
        exact hsettles
    · exact Or.inr ⟨hlarge, start, henters, hcrowds⟩
  · exact Or.inl ⟨_, fun steps _ ↦ hrefused steps,
      Or.inr ⟨_, later, final, rfl, hlater, hextends, hrefuses.cases⟩⟩

end Machine.Rests

end Entry

end ScriptMachine
