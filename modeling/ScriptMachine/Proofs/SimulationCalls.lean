import ScriptMachine.Proofs.Simulation

/-!
# Calls follow the bodies of functions

A call begins with the receiver and the arguments in the first slots and undefined in all others, which are
the variables of the function by name (`Closure.agrees_bindings`), and it ends when its body does
(`Closure.Compiled.leads_run`). So calls of functions follow the evaluation of their bodies, however deep
they are nested (`Program.Knows.supports_apply`), and the first call of a run comes to what the evaluation of the
function that the host has called comes to (`Closure.Compiled.settles`).
-/

set_option autoImplicit false
set_option relaxedAutoImplicit false

namespace ScriptMachine

/-! ### The beginning of a call -/

/-- The variables at the beginning of a call are those in its slots. -/
theorem Closure.agrees_bindings {closure : Closure} {strict : Bool} {line : UInt32} {slots : SlotTable}
    (hslots : SlotTable.allocate closure.parameters closure.body strict line = .ok slots) {unit : CodeUnit}
    (hparameters : unit.parameterCount = closure.parameters.length + 1)
    (hwidth : unit.slotCount = slots.size) (receiver : Value) {arguments : List Value}
    (harity : arguments.length = closure.parameters.length) :
    slots.Agrees (closure.bindings receiver arguments)
      (CallStack.initialLocals unit receiver arguments) := by
  obtain ⟨added, hnames, hnodup, hmem⟩ := SlotTable.exists_names_of_allocate hslots
  have hadded : unit.slotCount - unit.parameterCount = added.length := by
    rw [hwidth, hparameters, SlotTable.size, hnames]
    simp only [List.length_append, List.length_cons]
    omega
  intro name
  unfold Closure.bindings CallStack.initialLocals
  rw [hadded]
  split_ifs with hthis hparameter hdeclared
  · have hslot : slots.slotOf? name = some 0 := by
      rw [SlotTable.slotOf?_eq_some_iff, hnames, hthis]
      rfl
    rw [hslot]
    rfl
  · have hslot : slots.slotOf? name = some (closure.parameters.idxOf name + 1) := by
      rw [SlotTable.slotOf?_eq_some_iff, hnames, List.cons_append, List.getElem?_cons_succ,
        List.getElem?_append_left (List.idxOf_lt_length_iff.mpr hparameter), List.getElem?_idxOf hparameter]
    have hinside : closure.parameters.idxOf name < arguments.length := by
      rw [harity]
      exact List.idxOf_lt_length_iff.mpr hparameter
    rw [hslot, Option.bind_some, List.cons_append, List.getElem?_cons_succ,
      List.getElem?_append_left hinside]
  · have hin : name ∈ slots.names := (hmem name).mpr (Or.inr hdeclared)
    obtain ⟨slot, hslot⟩ := Option.isSome_iff_exists.mp ((slots.slotOf?_isSome_iff name).mpr hin)
    have hnameAt := SlotTable.getElem?_of_slotOf? hslot
    have hbound := SlotTable.slotOf?_lt hslot
    rw [SlotTable.size, hnames] at hbound
    rw [hnames] at hnameAt
    -- a name that is no parameter is found behind the parameters
    have hbehind : closure.parameters.length + 1 ≤ slot := by
      by_contra hless
      rw [List.getElem?_append_left (by simp only [List.length_cons]; omega)] at hnameAt
      rcases List.mem_cons.mp (List.mem_of_getElem? hnameAt) with hsame | hsame
      · exact hthis hsame
      · exact hparameter hsame
    rw [hslot, Option.bind_some, List.getElem?_append_right (by simp only [List.length_cons]; omega),
      List.getElem?_replicate, if_pos]
    simp only [List.length_append, List.length_cons] at hbound ⊢
    omega
  · have hout : slots.slotOf? name = none := by
      cases hslot : slots.slotOf? name with
      | none => rfl
      | some slot =>
        have hin := (slots.slotOf?_isSome_iff name).mp (by rw [hslot]; rfl)
        rcases (hmem name).mp hin with hparameterName | hdeclaredName
        · rcases List.mem_cons.mp hparameterName with hsame | hsame
          · exact absurd hsame hthis
          · exact absurd hsame hparameter
        · exact absurd hdeclaredName hdeclared
    rw [hout]
    rfl

/-! ### Bodies -/

/-- A program has the functions that a registry knows. -/
structure Program.Knows (program : Program) (registry : Registry) : Prop where
  constants : program.constants.Valid registry
  functions : ∀ (identity : Nat) (routine : Routine),
    registry.functions identity = some (.compiled routine) →
      ∃ closure : Closure, program.closure? identity = some closure ∧
        closure.Compiled program.constants routine

/-- Where calls stand after the call of a function, before it returns or stops. -/
inductive CallStack.HasRun (registry : Registry) (known : List Value) (constants : ConstantTable)
    (callers : List Level) (bound : Nat) (calls : CallStack) : EStateM.Result Stop World Value → Prop where
  | returns {value : Value} {world : World} {rest : List Value} (hvalid : calls.Valid registry known)
      (hextends : constants.Extends calls.constants) (hreturns : calls.Returns)
      (hcallers : calls.callers = callers) (hworld : calls.world = world)
      (hoperands : calls.current.operands = value :: rest) :
      HasRun registry known constants callers bound calls (.ok value world)
  | stops {stop : Stop} {world : World} (hstops : calls.StopsFor bound world stop) :
      HasRun registry known constants callers bound calls (.error stop world)

/-- A call of a compiled function follows the evaluation of its body. -/
theorem Closure.Compiled.leads_run {closure : Closure} {program : Program} {registry : Registry}
    {known : List Value} (hknows : program.Knows registry) {routine : Routine}
    (hcompiled : closure.Compiled program.constants routine) {depth : Nat} {apply : Callable}
    (hsupports : program.Supports registry known depth apply) {calls : CallStack}
    (hvalid : calls.Valid registry known) (hextends : program.constants.Extends calls.constants)
    {receiver : Value} {arguments : List Value} (harity : arguments.length = closure.parameters.length)
    (hcurrent : calls.current =
      ⟨routine, 0, CallStack.initialLocals routine.unit receiver arguments, []⟩) :
    calls.Leads fun reached ↦
      reached.HasRun registry known program.constants calls.callers (calls.callers.length + depth)
        (closure.run program apply receiver arguments calls.world) := by
  obtain ⟨strict, line, last, slots, code, hslots, hlowered, hunit⟩ := hcompiled.unit
  have hcode : routine.unit.HasAt 0 (code ++ Lowering.undefinedAt last ++ [.plain .ret last]) := by
    rw [hunit]
    exact Fragment.hasAt_assemble _ _ _
  obtain ⟨hfront, hret⟩ := hcode.append
  obtain ⟨hbody, hundefinedCode⟩ := hfront.append
  have hwidth : routine.unit.slotCount = slots.size := by
    rw [hunit]
    rfl
  have hparameters : routine.unit.parameterCount = closure.parameters.length + 1 := by
    rw [hunit]
    rfl
  have hsize : routine.unit.code.size < 4294967296 := by
    have hsmall := hvalid.size_lt
    rw [hcurrent] at hsmall
    exact Nat.lt_succ_of_lt hsmall
  let running : Body :=
    ⟨program, registry, known, slots, routine, calls.callers, calls.callers.length + depth⟩
  have hrunning : Lowered running.program.constants running.slots closure.firstSite
      (.statements closure.body.nodes) code := hlowered
  have hstands : running.Stands ⟨calls.world, closure.bindings receiver arguments⟩ 0 [] calls := by
    refine ⟨hvalid, hextends, rfl, by rw [hcurrent], by rw [hcurrent], by rw [hcurrent], rfl, ?_⟩
    rw [hcurrent]
    exact Closure.agrees_bindings hslots hparameters hwidth receiver harity
  have hundefined : running.program.constants.value? [] Word.undefined = some .undefined :=
    ConstantTable.value?_undefined [] hknows.constants.undefined
  have hfollows : running.Follows calls (evaluateStatements program apply closure.firstSite
      closure.body.nodes ⟨calls.world, closure.bindings receiver arguments⟩)
      fun _ after ↦ running.Stands after (0 + Fragment.size code) [] :=
    Body.Follows.map_iff.mp
      (hrunning.follows hknows.constants hwidth hsize rfl hsupports hbody hstands)
  unfold Closure.run
  generalize evaluateStatements program apply closure.firstSite closure.body.nodes
    ⟨calls.world, closure.bindings receiver arguments⟩ = result at hfollows ⊢
  refine (CallStack.Leads.withReaches hfollows).bind fun reached hreached ↦ ?_
  obtain ⟨hreaches, hmatches⟩ := hreached
  rcases result with ⟨_, after⟩ | ⟨value | stop, after⟩
  · have hbehind : running.Stands after (0 + Fragment.size code) [] reached := hmatches
    refine (hbehind.push (hundefinedCode.operationAt (Emission.operation?_constant hundefined))).mono
        fun final hfinal ↦ ?_
    rw [Fragment.size_append, ← Nat.add_assoc] at hret
    exact .returns hfinal.valid hfinal.constants ⟨_, hfinal.next?_eq (hret.operationAt rfl)⟩ hfinal.callers
      hfinal.world hfinal.operands
  · obtain ⟨hreturns, hworld, hcallers, rest, hoperands⟩ := hmatches
    exact CallStack.Leads.here (.returns (hvalid.of_reaches hreaches)
      (hextends.trans hreaches.extends) hreturns hcallers hworld hoperands)
  · exact CallStack.Leads.here (.stops hmatches)

/-! ### Calls -/

namespace CallStack

variable {calls : CallStack} {registry : Registry} {known : List Value} {next : Nat}
  {receiver value : Value} {arguments rest : List Value}

/-- The innermost call returns with the value on top of its operands. -/
theorem step_of_returns (hreturns : calls.Returns) (hoperands : calls.current.operands = value :: rest) :
    calls.step = some (calls.leave value) := by
  obtain ⟨next, hnext⟩ := hreturns
  unfold next? at hnext
  unfold step
  rw [hnext]
  dsimp only
  unfold perform
  rw [show (calls.withOffset next).current.operands = value :: rest from hoperands]
  rfl

/-- The innermost call calls the value below the receiver and the arguments. -/
theorem step_of_call {callee : Value} (hnext : calls.next? = some (.call arguments.length, next))
    (hoperands : calls.current.operands = arguments.reverse ++ receiver :: callee :: rest) :
    calls.step = (calls.withOffset next).call callee receiver arguments rest := by
  have hlength : arguments.reverse.length = arguments.length := arguments.length_reverse
  unfold next? at hnext
  unfold step
  rw [hnext]
  dsimp only
  unfold perform
  rw [show (calls.withOffset next).current.operands = arguments.reverse ++ receiver :: callee :: rest
    from hoperands]
  dsimp only
  rw [List.drop_left' hlength, List.take_left' hlength, List.reverse_reverse]

/-- A native function answers at once. -/
theorem leads_of_native {program : Program} {depth identity : Nat} {name : String} {operation : Native}
    (hvalid : calls.Valid registry known) (hextends : program.constants.Extends calls.constants)
    (hoperands : calls.current.operands =
      arguments.reverse ++ receiver :: .function (.native identity name operation) :: rest)
    (hstep : calls.step =
      (calls.withOffset next).call (.function (.native identity name operation)) receiver arguments rest) :
    calls.Leads fun reached ↦
      reached.Answers registry known program.constants
        ⟨calls.current.routine, next, calls.current.locals, rest⟩ calls.callers
        (calls.callers.length + depth)
        (operation.apply receiver arguments calls.world) := by
  have hreceiver : receiver.Valid registry calls.world.store.records :=
    hvalid.current.operands receiver (by simp [hoperands])
  have harguments : ∀ value ∈ arguments, value.Valid registry calls.world.store.records :=
    fun value hvalue ↦ hvalid.current.operands value (by simp [hoperands, hvalue])
  have happlied := hvalid.world.applyNative operation hreceiver harguments
  have hsame : (calls.withOffset next).world = calls.world := rfl
  unfold call at hstep
  unfold Native.apply
  dsimp only at hstep
  rw [hsame] at hstep
  cases hresult : World.applyNative operation receiver arguments calls.world with
  | ok value world =>
    rw [hresult] at hstep happlied
    obtain ⟨hworld, hstore, hvalue⟩ := happlied
    have hcontinues : calls.Continues
        (((calls.withOffset next).withWorld world).pushCarried value rest) := hstep
    refine Leads.of_continues hcontinues ?_
    by_cases hsize : (calls.constants.carry value).2.size ≤ Word.indexLimit
    · have hcarried := hvalid.constants.carry_eq hvalue hsize
      refine Leads.here ⟨hvalid.of_reaches (.single hcontinues),
        hextends.trans (calls.constants.carry_extends value), rfl, rfl, ?_⟩
      exact congrArg
        (fun carried ↦ Level.mk calls.current.routine next calls.current.locals (carried :: rest)) hcarried
    · exact ⟨_, .refl, Or.inl (Or.inl (Nat.lt_of_not_le hsize))⟩
  | error fault world =>
    rw [hresult] at hstep
    exact Leads.here ⟨calls.constants, hstep⟩

/-- A caller goes on with the value that the function it has called returns. -/
theorem HasRun.leads {program : Program} {bound : Nat} {caller : Level} {callers : List Level}
    {result : EStateM.Result Stop World Value}
    (hhasRun : calls.HasRun registry known program.constants (caller :: callers) bound result) :
    calls.Leads fun reached ↦
      reached.Answers registry known program.constants caller callers bound result := by
  cases hhasRun with
  | @returns value world others hvalid hextends hreturns hcallers hworld hothers =>
    have hleave := step_of_returns hreturns hothers
    unfold leave at hleave
    rw [hcallers] at hleave
    have hback : calls.Continues { calls with
        current := { caller with operands := value :: caller.operands }, callers := callers } := hleave
    exact Leads.of_continues hback
      (Leads.here ⟨hvalid.of_reaches (.single hback), hextends, hworld, rfl, rfl⟩)
  | stops hstops => exact Leads.here hstops

end CallStack

/-- Calls of values follow a way of calling them when calls of compiled functions do. -/
theorem Program.Knows.supports_dispatch {program : Program} {registry : Registry} {known : List Value}
    (hknows : program.Knows registry) {depth : Nat}
    {enter : Closure → Value → List Value → EStateM Stop World Value}
    (henter : ∀ (closure : Closure) (routine : Routine) (entered : CallStack) (receiver : Value)
      (arguments : List Value) (caller : Level) (callers : List Level),
      closure.Compiled program.constants routine → entered.Valid registry known →
      program.constants.Extends entered.constants →
      arguments.length = closure.parameters.length →
      entered.current = ⟨routine, 0, CallStack.initialLocals routine.unit receiver arguments, []⟩ →
      entered.callers = caller :: callers →
      entered.Leads fun reached ↦
        reached.HasRun registry known program.constants (caller :: callers) (callers.length + depth)
          (enter closure receiver arguments entered.world)) :
    program.Supports registry known depth (program.dispatch enter) := by
  intro calls next callee receiver arguments rest hvalid hextends hnext hoperands
  have hstep := CallStack.step_of_call hnext hoperands
  have hcallee : callee.Valid registry calls.world.store.records :=
    hvalid.current.operands callee (by simp [hoperands])
  cases callee
  case function function =>
    cases function with
    | native identity name operation =>
      exact CallStack.leads_of_native hvalid hextends hoperands hstep
    | compiled routine =>
      obtain ⟨closure, hclosure, hcompiled⟩ := hknows.functions routine.identity routine hcallee
      have hslots : ¬ routine.unit.slotCount < routine.unit.parameterCount :=
        Nat.not_lt_of_le (hvalid.code _ _ hcallee).parameters
      have hparameters : routine.unit.parameterCount = closure.parameters.length + 1 := by
        obtain ⟨_, _, _, _, _, -, -, hunit⟩ := hcompiled.unit
        rw [hunit]
        rfl
      unfold CallStack.call at hstep
      dsimp only [Program.dispatch] at hstep ⊢
      rw [hparameters, Nat.add_sub_cancel, hcompiled.name] at hstep
      rw [hclosure]
      dsimp only
      by_cases harity : arguments.length = closure.parameters.length
      · rw [if_neg (by omega), if_neg (by omega)] at hstep
        rw [if_pos harity]
        have hcontinues : calls.Continues
            ((calls.withOffset next).enter routine receiver arguments rest) := hstep
        have hentered := henter closure routine _ receiver arguments _ _ hcompiled
          (hvalid.of_reaches (.single hcontinues)) hextends harity rfl rfl
        exact CallStack.Leads.of_continues hcontinues (hentered.bind fun reached hhasRun ↦ hhasRun.leads)
      · rw [if_pos (by omega)] at hstep
        rw [if_neg harity]
        exact CallStack.Leads.here ⟨calls.constants, hstep⟩
  all_goals exact CallStack.Leads.here ⟨calls.constants, hstep⟩

/-- Calls of values follow the evaluation of function bodies, however deep it may be nested. -/
theorem Program.Knows.supports_apply {program : Program} {registry : Registry} {known : List Value}
    (hknows : program.Knows registry) (depth : Nat) :
    program.Supports registry known depth (program.apply depth) := by
  induction depth with
  | zero =>
    refine hknows.supports_dispatch ?_
    intro closure routine entered receiver arguments caller callers _ _ _ _ _ hcallers
    refine CallStack.Leads.here (.stops ?_)
    show callers.length + 0 < entered.callers.length
    rw [hcallers, List.length_cons]
    exact Nat.lt_succ_self _
  | succ depth ih =>
    refine hknows.supports_dispatch ?_
    intro closure routine entered receiver arguments caller callers hcompiled hvalid hextends harity
      hcurrent hcallers
    have hleads := hcompiled.leads_run hknows ih hvalid hextends harity hcurrent
    rw [hcallers, List.length_cons, Nat.add_assoc, Nat.add_comm 1 depth] at hleads
    exact hleads

/-! ### Outcomes -/

/-- The outcome of a call of the host is that of an evaluation: the same value or the same fault, and a
machine that shows the same world. -/
inductive CallOutcome.Agrees : CallOutcome → EStateM.Result Stop World Value → Prop where
  | value {value : Value} {machine : Machine} {world : World} (hshows : machine.Shows world) :
      Agrees (.ok value, machine) (.ok value world)
  | fault {located : LocatedFault} {machine : Machine} {world : World} (hshows : machine.Shows world) :
      Agrees (.error located, machine) (.error (.failed located.fault) world)

/-- The outcome of a call of the host is that the stack is full, and some calls in progress do need more
words than its limit, on top of those below. -/
def CallStack.Overflows (calls : CallStack) (limit below : Nat) (outcome : CallOutcome) : Prop :=
  ∃ (located : LocatedFault) (machine : Machine) (reached : CallStack),
    outcome = (.error located, machine) ∧ located.fault = .stackOverflow limit ∧
      calls.Reaches reached ∧ limit < below + reached.words

/-- A call of the host has the outcome of evaluating the body of the function, and the world is still valid, unless
the stack is full. -/
theorem Closure.Compiled.settles {closure : Closure} {program : Program} {registry : Registry}
    {known : List Value} (hknows : program.Knows registry) {routine : Routine}
    (hcompiled : closure.Compiled program.constants routine) {calls : CallStack}
    (hvalid : calls.Valid registry known) (hextends : program.constants.Extends calls.constants)
    {receiver : Value} {arguments : List Value} (harity : arguments.length = closure.parameters.length)
    (hcurrent : calls.current =
      ⟨routine, 0, CallStack.initialLocals routine.unit receiver arguments, []⟩)
    (hcallers : calls.callers = []) {limit base : Nat} {entry : List Word} {outcome : CallOutcome}
    (hsettles : calls.Settles registry known limit entry base outcome)
    (hsize : outcome.2.constants.size ≤ Word.indexLimit) {depth : Nat} (hdepth : limit ≤ depth + 1) :
    (outcome.Agrees (closure.run program (program.apply depth) receiver arguments calls.world) ∧
        (World.state (closure.run program (program.apply depth) receiver arguments calls.world)).Valid registry
          known) ∨
      calls.Overflows limit entry.length outcome := by
  obtain ⟨reached, hreaches, hgoal⟩ :=
    hcompiled.leads_run hknows (hknows.supports_apply depth) hvalid hextends harity hcurrent
  have hsmall : ∀ {final : ConstantTable}, calls.StaysWithin limit entry.length final →
      final.size ≤ Word.indexLimit → ¬ reached.Outgrown ∧ reached.callers.length ≤ depth := by
    intro final hwithin hfinal
    have hfits := hwithin reached hreaches
    have hwords := hfits.words
    have hnumbered := hfits.numbered
    have hcount := reached.callers_length_lt_words
    have hlocals := reached.locals_length_le_words
    have hconstants := hfits.constants.size_le
    refine ⟨?_, by omega⟩
    rintro (hmany | hlong) <;> omega
  have hends : ∀ {final : ConstantTable} {progress : Progress},
      calls.StaysWithin limit entry.length final → final.size ≤ Word.indexLimit → calls.Ends progress →
      (∃ (value : Value) (world : World) (constants : ConstantTable),
          closure.run program (program.apply depth) receiver arguments calls.world = .ok value world ∧
          progress = .finished value world constants) ∨
        ∃ (fault : Fault) (world : World) (constants : ConstantTable),
          closure.run program (program.apply depth) receiver arguments calls.world =
            .error (.failed fault) world ∧ progress = .failed fault world constants := by
    intro final progress hwithin hfinal hprogress
    obtain ⟨hinside, hshallow⟩ := hsmall hwithin hfinal
    rcases hgoal with houtgrown | hhasRun
    · exact absurd houtgrown hinside
    generalize closure.run program (program.apply depth) receiver arguments calls.world = result at hhasRun ⊢
    cases hhasRun with
    | @returns value world rest _ _ hreturns hnone hworld hoperands =>
      have hleave := CallStack.step_of_returns hreturns hoperands
      unfold CallStack.leave at hleave
      rw [hnone, hcallers, hworld] at hleave
      refine Or.inl ⟨value, world, reached.constants, rfl, hprogress.unique ?_⟩
      exact ⟨reached, hreaches, hleave, by rintro _ ⟨⟩⟩
    | @stops stop world hstops =>
      cases stop with
      | failed fault =>
        obtain ⟨constants, hfailed⟩ := hstops
        refine Or.inr ⟨fault, world, constants, rfl, hprogress.unique ?_⟩
        exact ⟨reached, hreaches, hfailed, by rintro _ ⟨⟩⟩
      | exhausted =>
        have hdeep : calls.callers.length + depth < reached.callers.length := hstops
        omega
  cases hsettles with
  | @finished value world constants machine hfinished _ hrests hwithin =>
    have hsame : machine.constants = constants := hrests.realizes.constants
    dsimp only at hsize
    rw [hsame] at hsize
    rcases hends hwithin hsize hfinished with ⟨_, _, _, hrun, hfound⟩ | ⟨_, _, _, _, hfound⟩
    · cases hfound
      rw [hrun]
      exact Or.inl ⟨.value hrests.realizes.shows, hrests.visible⟩
    · cases hfound
  | @failed located world constants machine hfailed _ hrests hwithin =>
    have hsame : machine.constants = constants := hrests.realizes.constants
    dsimp only at hsize
    rw [hsame] at hsize
    rcases hends hwithin hsize hfailed with ⟨_, _, _, _, hfound⟩ | ⟨_, _, _, hrun, hfound⟩
    · cases hfound
    · cases hfound
      rw [hrun]
      exact Or.inl ⟨.fault hrests.realizes.shows, hrests.visible⟩
  | @overflows located last machine hfault hlast hwords hrests =>
    exact Or.inr ⟨located, machine, last, rfl, hfault, hlast, hwords⟩

end ScriptMachine
