import ScriptMachine.Proofs.SessionActivities

/-!
# Running a script is evaluating its tree

A bound on how deep calls are nested does not change what a script comes to, once it is large enough
(`Script.evaluate_mono`): `Script.Evaluates` is the meaning of a script without a bound, and there is at most
one (`Script.Evaluates.unique`). What an engine answers to a script, and the world that it shows then, is
this meaning, unless its stack has become full (`Session.follows_tree`).
-/

set_option autoImplicit false
set_option relaxedAutoImplicit false

namespace ScriptMachine

/-! ### Larger bounds -/

/-- Something that does not stop because of a bound does the same with a larger one. -/
def Evaluation.Within {α : Type} (bounded larger : Evaluation α) : Prop :=
  ∀ locale : Locale,
    (∃ after : Locale, bounded locale = .error (.stopped .exhausted) after) ∨ bounded locale = larger locale

/-- A call that does not stop because of a bound does the same with a larger one. -/
def Callable.Within (bounded larger : Callable) : Prop :=
  ∀ (callee receiver : Value) (arguments : List Value) (world : World),
    (∃ after : World, bounded callee receiver arguments world = .error .exhausted after) ∨
      bounded callee receiver arguments world = larger callee receiver arguments world

namespace Evaluation

theorem Within.refl {α : Type} (part : Evaluation α) : part.Within part :=
  fun _ ↦ Or.inr rfl

/-- One part and then another one are within a bound when both are. -/
theorem Within.bind {α β : Type} {bounded larger : Evaluation α} {rest more : α → Evaluation β}
    (hpart : bounded.Within larger) (hrest : ∀ value : α, (rest value).Within (more value)) :
    (bounded >>= rest).Within (larger >>= more) := by
  intro locale
  show (∃ after : Locale, EStateM.bind bounded rest locale = _) ∨
    EStateM.bind bounded rest locale = EStateM.bind larger more locale
  unfold EStateM.bind
  rcases hpart locale with ⟨after, hstopped⟩ | hsame
  · exact Or.inl ⟨after, by rw [hstopped]⟩
  · rw [← hsame]
    cases bounded locale with
    | ok value after => exact hrest value after
    | error signal after => exact Or.inr rfl

/-- A call in a function body is within a bound when the way of calling is. -/
theorem within_call {bounded larger : Callable} (hcall : bounded.Within larger) (callee receiver : Value)
    (arguments : List Value) :
    (call bounded callee receiver arguments).Within (call larger callee receiver arguments) := by
  intro locale
  unfold call
  rcases hcall callee receiver arguments locale.world with ⟨after, hstopped⟩ | hsame
  · exact Or.inl ⟨_, by rw [hstopped]⟩
  · exact Or.inr (by rw [hsame])

end Evaluation

section Trees

variable {program : Program} {bounded larger : Callable}

/-- Several nodes are evaluated within a bound when each one is. -/
theorem within_evaluateValues {nodes : List Node}
    (hnodes : ∀ node ∈ nodes, ∀ first : Nat,
      (node.evaluate program bounded first).Within (node.evaluate program larger first)) (first : Nat) :
    (evaluateValues program bounded first nodes).Within (evaluateValues program larger first nodes) := by
  induction nodes generalizing first with
  | nil => exact .refl _
  | cons node rest ih =>
    unfold evaluateValues
    exact .bind (hnodes node List.mem_cons_self first) fun _ ↦
      .bind (ih (fun other hmem ↦ hnodes other (List.mem_cons_of_mem _ hmem)) _) fun _ ↦ .refl _

/-- Several statements are evaluated within a bound when each one is. -/
theorem within_evaluateStatements {nodes : List Node}
    (hnodes : ∀ node ∈ nodes, ∀ first : Nat,
      (node.evaluate program bounded first).Within (node.evaluate program larger first)) (first : Nat) :
    (evaluateStatements program bounded first nodes).Within
      (evaluateStatements program larger first nodes) := by
  induction nodes generalizing first with
  | nil => exact .refl _
  | cons node rest ih =>
    unfold evaluateStatements
    exact .bind (hnodes node List.mem_cons_self first) fun _ ↦
      ih (fun other hmem ↦ hnodes other (List.mem_cons_of_mem _ hmem)) _

/-- The initial values of fields are evaluated within a bound when each one is. -/
theorem within_evaluateFields {fields : List (Field Node)}
    (hfields : ∀ field ∈ fields, ∀ first : Nat,
      (field.value.evaluate program bounded first).Within (field.value.evaluate program larger first))
    (first : Nat) :
    (evaluateFields program bounded first fields).Within (evaluateFields program larger first fields) := by
  induction fields generalizing first with
  | nil => exact .refl _
  | cons field rest ih =>
    unfold evaluateFields
    exact .bind (hfields field List.mem_cons_self first) fun _ ↦
      .bind (ih (fun other hmem ↦ hfields other (List.mem_cons_of_mem _ hmem)) _) fun _ ↦ .refl _

/-- A node is evaluated within a bound when calls are. -/
theorem Node.within_evaluate (hcall : bounded.Within larger) (node : Node) (first : Nat) :
    (node.evaluate program bounded first).Within (node.evaluate program larger first) := by
  induction node using Node.induction generalizing first with
  | block body hnodes =>
    unfold evaluate
    exact .bind (within_evaluateStatements hnodes first) fun _ ↦ .refl _
  | literal value line =>
    unfold evaluate
    exact .refl _
  | access name line =>
    unfold evaluate
    exact .refl _
  | call callee arguments line hcallee harguments =>
    unfold evaluate
    exact .bind (hcallee first) fun _ ↦ .bind (within_evaluateValues harguments _) fun _ ↦
      Evaluation.within_call hcall _ _ _
  | assignment name value declares line hvalue =>
    unfold evaluate
    exact .bind (hvalue first) fun _ ↦ .refl _
  | function name parameters body line hnodes =>
    unfold evaluate
    exact .refl _
  | ret value line hvalue =>
    unfold evaluate
    exact .bind (hvalue first) fun _ ↦ .refl _
  | conditional condition thenBlock elseBlock line hcondition hthen helse =>
    unfold evaluate
    refine .bind (hcondition first) fun decision ↦ .bind ?_ fun _ ↦ .refl _
    cases decision.isFalse with
    | true => exact within_evaluateStatements helse _
    | false => exact within_evaluateStatements hthen _
  | object fields line hfields =>
    unfold evaluate
    exact .bind (within_evaluateFields hfields first) fun _ ↦ .refl _
  | fieldAccess receiver name line hreceiver =>
    unfold evaluate
    exact .bind (hreceiver first) fun _ ↦ .refl _
  | fieldAssignment receiver name value line hreceiver hvalue =>
    unfold evaluate
    exact .bind (hreceiver first) fun _ ↦ .bind (hvalue _) fun _ ↦ .refl _
  | methodCall receiver name arguments line hreceiver harguments =>
    unfold evaluate
    exact .bind (hreceiver first) fun _ ↦ .bind (.refl _) fun _ ↦
      .bind (within_evaluateValues harguments _) fun _ ↦ Evaluation.within_call hcall _ _ _

/-- The body of a function is evaluated within a bound when calls are. -/
theorem Closure.within_run (hcall : bounded.Within larger) (closure : Closure) (receiver : Value)
    (arguments : List Value) (world : World) :
    (∃ after : World, closure.run program bounded receiver arguments world = .error .exhausted after) ∨
      closure.run program bounded receiver arguments world =
        closure.run program larger receiver arguments world := by
  have hbody : (evaluateStatements program bounded closure.firstSite closure.body.nodes).Within
      (evaluateStatements program larger closure.firstSite closure.body.nodes) :=
    within_evaluateStatements (fun node _ ↦ node.within_evaluate hcall) _
  unfold run
  rcases hbody ⟨world, closure.bindings receiver arguments⟩ with ⟨after, hstopped⟩ | hsame
  · exact Or.inl ⟨after.world, by rw [hstopped]⟩
  · exact Or.inr (by rw [hsame])

/-- Values are called within a bound when function bodies are entered so. -/
theorem Program.within_dispatch {bounded larger : Closure → Value → List Value → EStateM Stop World Value}
    (henter : ∀ (closure : Closure) (receiver : Value) (arguments : List Value) (world : World),
      (∃ after : World, bounded closure receiver arguments world = .error .exhausted after) ∨
        bounded closure receiver arguments world = larger closure receiver arguments world) :
    Callable.Within (program.dispatch bounded) (program.dispatch larger) := by
  intro callee receiver arguments world
  unfold dispatch
  cases callee
  case function callee =>
    cases callee with
    | native => exact Or.inr rfl
    | compiled routine =>
      dsimp only
      cases program.closure? routine.identity with
      | none => exact Or.inr rfl
      | some closure =>
        dsimp only
        split
        · exact henter closure receiver arguments world
        · exact Or.inr rfl
  all_goals exact Or.inr rfl

end Trees

namespace Program

variable {program : Program}

/-- A call that does not stop because of a bound does the same with a bound one larger. -/
theorem within_apply_succ (depth : Nat) :
    Callable.Within (program.apply depth) (program.apply (depth + 1)) := by
  induction depth with
  | zero => exact within_dispatch fun _ _ _ world ↦ Or.inl ⟨world, rfl⟩
  | succ depth ih => exact within_dispatch fun closure ↦ closure.within_run ih

end Program

/-! ### The meaning of a script -/

/-- Evaluates a script whose sites have the identities from the first one on, with calls nested no deeper than
a bound. -/
def Script.evaluate (script : Script) (first : Nat) (program : Program) (depth : Nat) :
    EStateM Stop World Value :=
  (Closure.ofBody first "main" [] script.body).run program (program.apply depth) .undefined []

/-- A script comes to a value or a fault, and to a world. -/
def Script.Evaluates (script : Script) (first : Nat) (program : Program) (world : World)
    (result : EStateM.Result Stop World Value) : Prop :=
  ∃ depth : Nat, script.evaluate first program depth world = result ∧
    ∀ after : World, result ≠ .error .exhausted after

namespace Script

variable {script : Script} {first : Nat} {program : Program} {world : World}
  {result other : EStateM.Result Stop World Value}

/-- What a script comes to within a bound is what it comes to within a larger one. -/
theorem evaluate_mono {depth more : Nat} (hle : depth ≤ more)
    (hresult : script.evaluate first program depth world = result)
    (hdone : ∀ after : World, result ≠ .error .exhausted after) :
    script.evaluate first program more world = result := by
  induction hle with
  | refl => exact hresult
  | step _ ih =>
    rcases Closure.within_run (Program.within_apply_succ _) (Closure.ofBody first "main" [] script.body)
      .undefined [] world with ⟨after, hstopped⟩ | hsame
    · exact absurd (ih.symm.trans hstopped) (hdone after)
    · exact hsame.symm.trans ih

/-- A script comes to one thing only. -/
theorem Evaluates.unique (hresult : script.Evaluates first program world result)
    (hother : script.Evaluates first program world other) : result = other := by
  obtain ⟨depth, hdepth, hdone⟩ := hresult
  obtain ⟨otherDepth, hotherDepth, hotherDone⟩ := hother
  exact (evaluate_mono (Nat.le_max_left depth otherDepth) hdepth hdone).symm.trans
    (evaluate_mono (Nat.le_max_right depth otherDepth) hotherDepth hotherDone)

end Script

/-! ### Sessions -/

/-- The calls that a function begins when the host calls it without arguments need more words than a stack
has. -/
def Machine.Overloads (machine : Machine) (world : World) (routine : Routine) : Prop :=
  machine.stack.limit < routine.unit.entryWords 0 ∨
    ∃ reached : CallStack,
      (CallStack.entered world (machine.constants.box (.function (.compiled routine))).2 routine .undefined
        []).Reaches reached ∧ machine.stack.limit < reached.words

namespace Engine

variable {engine : Engine} {known : List Value} {closures : List Closure} {script : Script} {main : Routine}

/-- The functions of a script and those from before, with the constants of the compilation. -/
def program (engine : Engine) (closures : List Closure) (script : Script) : Program :=
  ⟨script.closures engine.machine.nextIdentity ++ closures, (engine.compile script).2.machine.constants⟩

/-- The function of a script has the identity after those of its literals. -/
theorem Consistent.identity_main (hconsistent : engine.Consistent known closures)
    (hmain : engine.main? script = some main) :
    main.identity = engine.machine.nextIdentity + sitesOf script.body.nodes := by
  obtain ⟨registry, world, hmachine, -⟩ := hconsistent
  exact (hmachine.accepted_main hmain).1

/-- The function of a script is the code of the body of the script. -/
theorem Consistent.compiled_main (hconsistent : engine.Consistent known closures)
    (hmain : engine.main? script = some main) {registry : Registry} {world : World} {arguments : List Value}
    (hready : (engine.prepared (.eval script)).machine.Ready known
      (engine.closures (.eval script) ++ closures) registry world main arguments)
    (hconstants : (engine.prepared (.eval script)).machine.constants.size ≤ Word.indexLimit) :
    (Closure.ofBody engine.machine.nextIdentity "main" [] script.body).Compiled
      (engine.program closures script).constants main := by
  obtain ⟨closure, hfound, hcompiled⟩ := hready.consistent.compiled main.identity main hready.registered
  have hbody : (engine.closures (.eval script) ++ closures).find?
      (fun other ↦ other.identity == main.identity) =
        some (Closure.ofBody engine.machine.nextIdentity "main" [] script.body) := by
    rw [closures_eq rfl, List.find?_append, (script.numbered_closures _).find?_eq
      (List.mem_append_right _ (List.mem_singleton.mpr rfl)) (hconsistent.identity_main hmain).symm]
    rfl
  obtain rfl := Option.some.inj (hfound.symm.trans hbody)
  exact hcompiled _ (.refl _) hconstants

end Engine

/-- What a compiled function begins with, as long as words can number the constants. -/
theorem CallStack.current_entered {constants : ConstantTable} {registry : Registry}
    (hconstants : constants.Valid registry) (world : World) (routine : Routine) {receiver : Value}
    {arguments : List Value} {records : List Record}
    (hvalues : ∀ value ∈ receiver :: arguments, value.Valid registry records)
    (hsize : (entered world constants routine receiver arguments).constants.size ≤ Word.indexLimit) :
    (entered world constants routine receiver arguments).current =
      ⟨routine, 0, initialLocals routine.unit receiver arguments, []⟩ := by
  unfold entered initialLocals
  dsimp only
  rw [hconstants.carryAll_eq hvalues hsize]

/-- What a machine that is ready for a function answers is what the body of the function comes to in a program that
knows it, unless the stack is full. -/
theorem Machine.Ready.agrees_call {machine : Machine} {known : List Value} {closures : List Closure}
    {registry : Registry} {world : World} {routine : Routine} {arguments : List Value}
    (hready : machine.Ready known closures registry world routine arguments) {program : Program}
    (hknows : program.Knows registry) (hextends : program.constants.Extends machine.constants) {closure : Closure}
    (hcompiled : closure.Compiled program.constants routine)
    (harity : arguments.length = closure.parameters.length) {outcome : CallOutcome}
    (hsettles : (CallStack.entered world (machine.constants.box (.function (.compiled routine))).2 routine
      .undefined arguments).Settles registry known machine.stack.limit [] 0 outcome)
    (hsize : outcome.2.constants.size ≤ Word.indexLimit) {depth : Nat}
    (hdepth : machine.stack.limit ≤ depth + 1) :
    (outcome.Agrees (closure.run program (program.apply depth) .undefined arguments world) ∧
        (World.state (closure.run program (program.apply depth) .undefined arguments world)).Valid registry
          known) ∨
      (CallStack.entered world (machine.constants.box (.function (.compiled routine))).2 routine .undefined
        arguments).Overflows machine.stack.limit 0 outcome := by
  have hfunction : Value.Valid registry [] (.function (.compiled routine)) := hready.registered
  have hboxed := hready.rests.entries.box rfl hfunction
  have hcode := hready.rests.code.mono (machine.constants.box_extends (.function (.compiled routine)))
  have hcount : arguments.length + 1 = routine.unit.parameterCount := by
    obtain ⟨_, _, _, _, _, _, _, hunit⟩ := hcompiled.unit
    rw [hunit, harity]
    rfl
  have hvalid := CallStack.entered_valid hready.rests.visible hboxed hcode hready.registered hready.values hcount
  -- the constants at the beginning are among those at the end, which words can number
  obtain ⟨_, final, hrests, hlater, -⟩ := hsettles.rests
  have hentered := Nat.le_trans hlater.size_le (hrests.realizes.constants ▸ hsize)
  exact hcompiled.settles hknows hvalid
    (hextends.trans ((ConstantTable.box_extends _ _).trans (ConstantTable.carryAll_extends _ _))) harity
    (CallStack.current_entered hboxed world routine hready.values hentered) rfl hsettles hsize hdepth

/-- What a machine that is ready for a function without parameters answers is what the body of the function
comes to, unless the stack is full. -/
theorem Machine.Ready.agrees_run {machine : Machine} {known : List Value} {closures : List Closure}
    {registry : Registry} {world : World} {routine : Routine}
    (hready : machine.Ready known closures registry world routine []) {closure : Closure}
    (hcompiled : closure.Compiled machine.constants routine) (hparameters : closure.parameters = [])
    {outcome : CallOutcome}
    (hsettles : (CallStack.entered world (machine.constants.box (.function (.compiled routine))).2 routine
      .undefined []).Settles registry known machine.stack.limit [] 0 outcome)
    (hsize : outcome.2.constants.size ≤ Word.indexLimit) {depth : Nat}
    (hdepth : machine.stack.limit ≤ depth + 1) :
    outcome.Agrees (closure.run ⟨closures, machine.constants⟩ (Program.apply ⟨closures, machine.constants⟩
        depth) .undefined [] world) ∨
      (CallStack.entered world (machine.constants.box (.function (.compiled routine))).2 routine .undefined
        []).Overflows machine.stack.limit 0 outcome := by
  have hknows : Program.Knows ⟨closures, machine.constants⟩ registry :=
    hready.consistent.knows (Nat.le_trans (ConstantTable.box_extends _ _).size_le hready.size)
  have hagrees := hready.agrees_call hknows (.refl _) hcompiled (by rw [hparameters]; rfl) hsettles hsize hdepth
  exact hagrees.imp_left And.left

/-- What a session answers to a script that is accepted is what its tree comes to in the world that the engine
shows: the same value, or the same fault, and an engine that shows the same world. The exception is a stack
that is too small for the calls of the script. -/
theorem Session.follows_tree {engine : Engine} {known : List Value} {closures : List Closure}
    {script : Script} {main : Routine} (hsession : Session engine known closures)
    (hmain : engine.main? script = some main) (haddresses : engine.Addresses known (.eval script))
    (hsmall : engine.StaysSmall (.eval script)) :
    ∃ (world : World) (outcome : CallOutcome) (bound : Nat), engine.machine.Shows world ∧
      (∀ steps : Nat, bound ≤ steps → engine.perform steps (.eval script) =
        some (Answer.ofOutcome (Engine.ofCall engine.strict outcome))) ∧
      (outcome.2.constants.size ≤ Word.indexLimit →
        (∃ result : EStateM.Result Stop World Value,
            script.Evaluates engine.machine.nextIdentity (engine.program closures script) world result ∧
              outcome.Agrees result) ∨
          ∃ located : LocatedFault, outcome.1 = .error located ∧
            located.fault = .stackOverflow engine.machine.stack.limit ∧
            (engine.prepared (.eval script)).machine.Overloads world main) := by
  have hconsistent := hsession.consistent
  have hadmissible : (Command.eval script).Admissible known := trivial
  have hruns : engine.runs? (.eval script) = some (main, []) := by rw [Engine.runs?, hmain]; rfl
  obtain ⟨registry, world, hshows, hready, -⟩ := hconsistent.ready hadmissible haddresses hruns
  have hlimit : (engine.prepared (.eval script)).machine.stack.limit = engine.machine.stack.limit := by
    rw [Engine.prepared_stack]
  have hcompiled := hconsistent.compiled_main hmain hready (Nat.le_of_lt haddresses.constants)
  have hparameters : ([] : List Value).length + 1 = main.unit.parameterCount := by
    obtain ⟨_, _, _, _, _, _, _, hunit⟩ := hcompiled.unit
    rw [hunit]
    rfl
  rcases hready.rests.exists_invokeRoutine (by omega) hready.registered hready.values hready.size with
    ⟨outcome, hinvoked, hends⟩ | ⟨hlarge, start, henters, reached, hreaches, hlong⟩
  · refine ⟨world, outcome, CallStack.rankBase ^ ((engine.prepared (.eval script)).machine.stack.limit + 1),
      hshows, fun steps hsteps ↦ ?_, fun hsize ↦ ?_⟩
    · rw [Engine.perform_of_runs? hruns, hinvoked steps hsteps]
      rfl
    · rcases hends with ⟨-, hsettles⟩ | ⟨located, later, final, rfl, -, -, hrefused⟩
      · have hdepth : (engine.prepared (.eval script)).machine.stack.limit ≤ engine.machine.stack.limit + 1 :=
          hlimit ▸ Nat.le_succ _
        rcases hready.agrees_run hcompiled rfl hsettles hsize hdepth with hagrees | hoverflows
        · generalize hresult : Closure.run _ _ _ _ _ world = result at hagrees
          refine Or.inl ⟨result, ⟨engine.machine.stack.limit, hresult, ?_⟩, hagrees⟩
          rintro after rfl
          cases hagrees
        · obtain ⟨located, machine, reached, rfl, hfull, hreaches, hwords⟩ := hoverflows
          exact Or.inr ⟨located, rfl, hlimit ▸ hfull, Or.inr ⟨reached, hreaches, by omega⟩⟩
      · refine Or.inr ⟨located, rfl, ?_⟩
        rcases hrefused with ⟨hfull, hwords⟩ | ⟨hother, -⟩
        · refine ⟨hlimit ▸ hfull, Or.inl ?_⟩
          simpa using hwords
        · exact absurd hparameters hother
  · exact absurd hlong (Nat.not_lt_of_le (hsmall (hlimit ▸ hlarge) reached
      ⟨start, ⟨main, [], hruns, henters⟩, hreaches⟩))

/-- The first command of a fresh engine makes a cyclic object as its tree says. -/
theorem Session.follows_tree_cyclic :
    ∃ main : Routine, Session Engine.fresh [] [] ∧ Engine.fresh.main? Script.cyclic = some main ∧
      Engine.fresh.Addresses [] (.eval Script.cyclic) ∧ Engine.fresh.StaysSmall (.eval Script.cyclic) ∧
      ∃ (world : World) (outcome : CallOutcome) (bound : Nat), Engine.fresh.machine.Shows world ∧
        (∀ steps : Nat, bound ≤ steps → Engine.fresh.perform steps (.eval Script.cyclic) =
          some (Answer.ofOutcome (Engine.ofCall Engine.fresh.strict outcome))) ∧
        (outcome.2.constants.size ≤ Word.indexLimit →
          (∃ result : EStateM.Result Stop World Value,
              Script.cyclic.Evaluates Engine.fresh.machine.nextIdentity
                (Engine.fresh.program [] Script.cyclic) world result ∧ outcome.Agrees result) ∨
            ∃ located : LocatedFault, outcome.1 = .error located ∧
              located.fault = .stackOverflow Engine.fresh.machine.stack.limit ∧
              (Engine.fresh.prepared (.eval Script.cyclic)).machine.Overloads world main) := by
  have hsession : Session Engine.fresh [] [] := .standard _ _ _
  obtain ⟨main, hmain⟩ := Engine.exists_main_cyclic
  exact ⟨main, hsession, hmain, Engine.addresses_cyclic, Engine.staysSmall_fresh _,
    hsession.follows_tree hmain Engine.addresses_cyclic (Engine.staysSmall_fresh _)⟩

end ScriptMachine
