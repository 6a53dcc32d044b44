import ScriptMachine.Proofs.Observation
import ScriptMachine.Proofs.Programs
import ScriptMachine.Proofs.ScriptEvaluation

/-!
# Calls of the host and calls of a script

A host calls a global function in one of two ways: directly, or by a script with the single statement
`return g(a, b)`. `Script.calling` is that script, for arguments that both can pass. Either way the call comes to
what `Program.apply` makes of the function (`Machine.Ready.exists_outcome`, `Script.evaluate_calling`), in two
programs that differ in the constants which the script has added. As these are no functions
(`Lowering.addsNoFunction_calling`), the programs mean the same (`Program.apply_eq`).

So the two ways have the same value or the same fault, and leave behind machines that look alike, unless the stack
becomes full in one of them (`Session.calls_agree`). That needs a state in which every value has a word: a host that
binds a global to an object of its own making is refused by the script, but not by the direct call
(`Engine.foreign_calls_disagree`).
-/

set_option autoImplicit false
set_option relaxedAutoImplicit false

namespace ScriptMachine

/-! ### Scripts that call a global -/

/-- An argument that a script can write down and a host can pass: a literal, or the value of a global that the
receiver does not hide. -/
inductive CallArgument where
  | literal (literal : Literal) (line : UInt32)
  | global (name : String) (hvisible : name ≠ SlotTable.receiverName) (line : UInt32)

namespace CallArgument

/-- The node of an argument. -/
def node : CallArgument → Node
  | .literal written line => .literal written line
  | .global name _ line => .access name line

/-- The value of an argument, given the globals. -/
def value (globals : Globals) : CallArgument → Value
  | .literal written _ => written.toValue
  | .global name _ _ => globals.lookup name

end CallArgument

/-- The lines of the parts of a script that calls a global. -/
structure CallLines where
  callee : UInt32
  call : UInt32
  ret : UInt32
  body : UInt32

/-- The script that returns the result of calling a global. -/
def Script.calling (name : String) (arguments : List CallArgument) (lines : CallLines) : Script :=
  ⟨⟨[.ret (.call (.access name lines.callee) (arguments.map CallArgument.node) lines.call) lines.ret], lines.body⟩⟩

section Calling

variable (name : String) (arguments : List CallArgument) (lines : CallLines)

/-- Arguments declare nothing. -/
theorem declarationsOf_arguments : declarationsOf (arguments.map CallArgument.node) = [] := by
  induction arguments with
  | nil => rfl
  | cons argument rest ih =>
    rw [List.map_cons, declarationsOf, ih]
    cases argument <;> rfl

/-- There is nothing wrong with arguments. -/
theorem violationsOf_arguments (strict : Bool) (scope : List String) :
    violationsOf strict scope (arguments.map CallArgument.node) = [] := by
  induction arguments with
  | nil => rfl
  | cons argument rest ih =>
    rw [List.map_cons, violationsOf, ih]
    cases argument <;> rfl

/-- A script that calls a global is accepted. -/
theorem Script.violations_calling (strict : Bool) : (calling name arguments lines).violations strict = [] := by
  have hdeclared : (calling name arguments lines).body.declared = [] := by
    rw [← Block.declarationsOf_nodes]
    show (Node.access name lines.callee).declarations ++ declarationsOf (arguments.map CallArgument.node) ++ [] = []
    rw [declarationsOf_arguments]
    rfl
  rw [violations, redeclarations, hdeclared]
  show _ ++ ((Node.access name lines.callee).violations strict _ ++
    violationsOf strict _ (arguments.map CallArgument.node) ++ []) = []
  rw [violationsOf_arguments]
  cases strict <;> rfl

open Lowering in
/-- The compilation of arguments adds no function. -/
theorem Lowering.addsNoFunction_arguments (strict : Bool) (slots : SlotTable) :
    AddsNoFunction (lowerValues strict slots (arguments.map CallArgument.node)) := by
  induction arguments with
  | nil => exact .pure _
  | cons argument rest ih =>
    rw [List.map_cons, lowerValues]
    refine .bind ?_ fun _ ↦ ih.bind fun _ ↦ .pure _
    cases argument with
    | literal literal line =>
      rw [CallArgument.node, lowerNode]
      exact (AddsNoFunction.literalWord _).bind fun _ ↦ .pure _
    | global name _ line =>
      rw [CallArgument.node, lowerNode]
      split
      · exact .pure _
      · exact (AddsNoFunction.constant (by rintro _ ⟨⟩)).bind fun _ ↦ .pure _

open Lowering in
/-- The compilation of a script that calls a global adds no function. -/
theorem Lowering.addsNoFunction_calling (strict : Bool) :
    AddsNoFunction (compileScript strict (Script.calling name arguments lines)) := by
  refine .routineOf fun slots ↦ ?_
  rw [Script.calling, lowerStatements, lowerNode, lowerNode, lowerNode, lowerStatements]
  refine .bind (.bind (.bind ?_ fun _ ↦ (addsNoFunction_arguments arguments strict slots).bind fun _ ↦ .pure _)
    fun _ ↦ .pure _) fun _ ↦ .bind (.pure _) fun _ ↦ .pure _
  split
  · exact .pure _
  · exact (AddsNoFunction.constant (by rintro _ ⟨⟩)).bind fun _ ↦ .pure _

/-- The variables at the beginning of a script that calls a global: there is none but the receiver. -/
theorem Closure.bindings_calling (first : Nat) {read : String} (hread : read ≠ SlotTable.receiverName) :
    (Closure.ofBody first "main" [] (Script.calling name arguments lines).body).bindings .undefined [] read =
      none := by
  have hdeclared : declarationsOf (Script.calling name arguments lines).body.nodes = [] := by
    show (Node.access name lines.callee).declarations ++ declarationsOf (arguments.map CallArgument.node) ++ [] = []
    rw [declarationsOf_arguments]
    rfl
  unfold bindings ofBody
  dsimp only
  rw [hdeclared, if_neg hread]
  rfl

/-- An argument is evaluated to its value. -/
theorem CallArgument.evaluate_node (argument : CallArgument) (program : Program) (apply : Callable) (first : Nat)
    (locale : Locale) (hlocale : ∀ read : String, read ≠ SlotTable.receiverName → locale.bindings read = none) :
    argument.node.evaluate program apply first locale = .ok (argument.value locale.world.globals) locale := by
  cases argument with
  | literal literal line =>
    rw [CallArgument.node, Node.evaluate]
    rfl
  | global read hvisible line =>
    rw [CallArgument.node, Node.evaluate, Evaluation.read, hlocale read hvisible]
    rfl

/-- Arguments are evaluated to their values. -/
theorem evaluateValues_arguments (program : Program) (apply : Callable) (first : Nat) (locale : Locale)
    (hlocale : ∀ read : String, read ≠ SlotTable.receiverName → locale.bindings read = none) :
    evaluateValues program apply first (arguments.map CallArgument.node) locale =
      .ok (arguments.map (CallArgument.value locale.world.globals)) locale := by
  induction arguments generalizing first with
  | nil => rfl
  | cons argument rest ih =>
    have hhead := fun first : Nat ↦ argument.evaluate_node program apply first locale hlocale
    rw [List.map_cons, List.map_cons, evaluateValues]
    simp only [bind, EStateM.bind, hhead, ih, pure, EStateM.pure]

/-- A script that calls a global comes to what the call comes to. -/
theorem Script.evaluate_calling (hname : name ≠ SlotTable.receiverName) (first : Nat) (program : Program)
    (depth : Nat) (world : World) :
    (calling name arguments lines).evaluate first program depth world =
      program.apply depth (world.globals.lookup name) .undefined
        (arguments.map (CallArgument.value world.globals)) world := by
  have hbindings : ∀ read : String, read ≠ SlotTable.receiverName → _ :=
    fun read ↦ Closure.bindings_calling name arguments lines first
  unfold evaluate Closure.run
  generalize hlocale : Locale.mk world ((Closure.ofBody first "main" []
    (calling name arguments lines).body).bindings .undefined []) = locale
  have hnone : ∀ read : String, read ≠ SlotTable.receiverName → locale.bindings read = none := by
    intro read hread
    rw [← hlocale]
    exact hbindings read hread
  obtain rfl : locale.world = world := by rw [← hlocale]
  dsimp only [calling, Closure.ofBody]
  rw [evaluateStatements, Node.evaluate, Node.evaluate, Node.evaluate]
  simp only [bind, EStateM.bind, Evaluation.read, hnone name hname,
    evaluateValues_arguments arguments program (program.apply depth) _ locale hnone, Evaluation.call,
    Option.getD_none]
  cases program.apply depth (locale.world.globals.lookup name) .undefined
    (arguments.map (CallArgument.value locale.world.globals)) locale.world <;> rfl

end Calling

/-! ### What comes of a call -/

/-- A call of the host comes to the result of an evaluation, in a world with whole objects. -/
structure CallOutcome.ComesTo (outcome : CallOutcome) (result : EStateM.Result Stop World Value) : Prop where
  agrees : outcome.Agrees result
  shaped : Store.Shaped (World.state result).store.records

/-- A call of the host stops because the stack is full. -/
def CallOutcome.Overflows (outcome : CallOutcome) : Prop :=
  ∃ (located : LocatedFault) (limit : Nat), outcome.1 = .error located ∧ located.fault = .stackOverflow limit

/-- A call of the host stops because the stack is full, and the call does need more words than the stack has: at its
beginning, or for some calls in progress that it leads to. -/
def CallOutcome.Exceeds (outcome : CallOutcome) (machine : Machine) (world : World) (routine : Routine)
    (arguments : List Value) : Prop :=
  ∃ located : LocatedFault, outcome.1 = .error located ∧ located.fault = .stackOverflow machine.stack.limit ∧
    (machine.stack.limit < routine.unit.entryWords arguments.length ∨
      ∃ reached : CallStack,
        (CallStack.entered world (machine.constants.box (.function (.compiled routine))).2 routine .undefined
          arguments).Reaches reached ∧ machine.stack.limit < reached.words)

/-- A call that needs more words than the stack has stops because the stack is full. -/
theorem CallOutcome.Exceeds.overflows {outcome : CallOutcome} {machine : Machine} {world : World} {routine : Routine}
    {arguments : List Value} (hexceeds : outcome.Exceeds machine world routine arguments) : outcome.Overflows := by
  obtain ⟨located, hfault, hfull, -⟩ := hexceeds
  exact ⟨located, _, hfault, hfull⟩

/-- Two calls of the host have the same value or the same fault, at whatever place, and leave behind machines that
look alike. -/
inductive CallOutcome.Accords : CallOutcome → CallOutcome → Prop where
  | value {value : Value} {machine machine' : Machine} (hlooks : machine.LooksLike machine') :
      Accords (.ok value, machine) (.ok value, machine')
  | fault {located located' : LocatedFault} {machine machine' : Machine} (hfault : located.fault = located'.fault)
      (hlooks : machine.LooksLike machine') : Accords (.error located, machine) (.error located', machine')

/-- Machines that show the same world look alike. -/
theorem Machine.Shows.looksLike {machine machine' : Machine} {world : World} (hshows : machine.Shows world)
    (hshows' : machine'.Shows world) (hshaped : Store.Shaped world.store.records) : machine.LooksLike machine' := by
  refine ⟨fun name ↦ ?_, fun name ↦ ?_, ?_, ?_, ?_⟩
  · rw [hshows.globals, hshows'.globals]
  · rw [hshows.globals, hshows'.globals]
  · rw [hshows.objects_eq hshaped, hshows'.objects_eq hshaped]
  · rw [hshows.heap.used_eq, hshows'.heap.used_eq]
  · rw [hshows.sink, hshows'.sink]

/-- Calls that come to the same result accord. -/
theorem CallOutcome.ComesTo.accords {outcome outcome' : CallOutcome} {result : EStateM.Result Stop World Value}
    (hresult : outcome.ComesTo result) (hresult' : outcome'.ComesTo result) : outcome.Accords outcome' := by
  obtain ⟨hagrees, hshaped⟩ := hresult
  obtain ⟨hagrees', -⟩ := hresult'
  cases hagrees with
  | value hshows =>
    cases hagrees' with
    | value hshows' => exact .value (hshows.looksLike hshows' hshaped)
  | @fault located machine world hshows =>
    generalize hfailed : Stop.failed located.fault = stop at hagrees'
    cases hagrees' with
    | fault hshows' => exact .fault (Stop.failed.inj hfailed) (hshows.looksLike hshows' hshaped)

/-- A machine that is ready for a function answers what calling the function comes to in a program that knows it,
unless the call needs more words than the stack has. -/
theorem Machine.Ready.exists_outcome_or_exceeds {machine : Machine} {known : List Value} {closures : List Closure}
    {registry : Registry} {world : World} {routine : Routine} {arguments : List Value}
    (hready : machine.Ready known closures registry world routine arguments)
    (hsmall : 4294967296 < machine.stack.limit → ∀ start : Activity,
      machine.Enters routine .undefined arguments start → ¬ start.Crowds)
    {program : Program} (hknows : program.Knows registry)
    (hextends : program.constants.Extends machine.constants) :
    ∃ (outcome : CallOutcome) (bound : Nat),
      (∀ steps : Nat, bound ≤ steps →
        machine.invokeRoutine steps routine .undefined arguments = some outcome) ∧
      (outcome.2.constants.size ≤ Word.indexLimit → ∀ depth : Nat, machine.stack.limit ≤ depth + 1 →
        outcome.ComesTo (program.apply (depth + 1) (.function (.compiled routine)) .undefined arguments world) ∨
          outcome.Exceeds machine world routine arguments) := by
  obtain ⟨closure, hfound, hcompiled⟩ := hknows.functions _ _ hready.registered
  have hparameters : routine.unit.parameterCount = closure.parameters.length + 1 := by
    obtain ⟨_, _, _, _, _, _, _, hunit⟩ := hcompiled.unit
    rw [hunit]
    rfl
  have happly : ∀ depth : Nat,
      program.apply (depth + 1) (.function (.compiled routine)) .undefined arguments world =
        if arguments.length = closure.parameters.length then
          closure.run program (program.apply depth) .undefined arguments world
        else .error (.failed (.arityMismatch closure.name closure.parameters.length arguments.length)) world := by
    intro depth
    rw [Program.apply, Program.dispatch, hfound]
    by_cases hcount : arguments.length = closure.parameters.length
    · simp only [if_pos hcount]
    · simp only [if_neg hcount]
      rfl
  rcases hready.rests.exists_invokeRoutine (by decide) hready.registered hready.values hready.size with
    ⟨outcome, hinvoked, hends⟩ | ⟨hlarge, start, henters, hcrowds⟩
  swap
  · exact absurd hcrowds (hsmall hlarge start henters)
  refine ⟨outcome, _, hinvoked, fun hsize depth hdepth ↦ ?_⟩
  rw [happly]
  rcases hends with ⟨harity, hsettles⟩ | ⟨located, later, final, rfl, hlater, -, hrefused⟩
  · have hcount : arguments.length = closure.parameters.length := by omega
    rw [if_pos hcount]
    rcases hready.agrees_call hknows hextends hcompiled hcount hsettles hsize hdepth with
      ⟨hagrees, hvalid⟩ | ⟨located, later, reached, rfl, hfull, hreaches, hwords⟩
    · exact Or.inl ⟨hagrees, hvalid.shaped⟩
    · exact Or.inr ⟨located, rfl, hfull, Or.inr ⟨reached, hreaches, by omega⟩⟩
  · rcases hrefused with ⟨hfull, hwords⟩ | ⟨harity, hfault⟩
    · rw [List.length_nil, Nat.zero_add] at hwords
      exact Or.inr ⟨located, rfl, hfull, Or.inl hwords⟩
    · have hcount : arguments.length ≠ closure.parameters.length := by omega
      have hsame : located.fault =
          .arityMismatch closure.name closure.parameters.length arguments.length := by
        rw [hfault, hcompiled.name, hparameters, Nat.add_sub_cancel]
      rw [if_neg hcount, ← hsame]
      exact Or.inl ⟨.fault hlater.realizes.shows, hlater.visible.shaped⟩

/-- A machine that is ready for a function answers what calling the function comes to in a program that knows it,
unless the stack becomes full. -/
theorem Machine.Ready.exists_outcome {machine : Machine} {known : List Value} {closures : List Closure}
    {registry : Registry} {world : World} {routine : Routine} {arguments : List Value}
    (hready : machine.Ready known closures registry world routine arguments)
    (hsmall : 4294967296 < machine.stack.limit → ∀ start : Activity,
      machine.Enters routine .undefined arguments start → ¬ start.Crowds)
    {program : Program} (hknows : program.Knows registry)
    (hextends : program.constants.Extends machine.constants) :
    ∃ (outcome : CallOutcome) (bound : Nat),
      (∀ steps : Nat, bound ≤ steps →
        machine.invokeRoutine steps routine .undefined arguments = some outcome) ∧
      (outcome.2.constants.size ≤ Word.indexLimit → ∀ depth : Nat, machine.stack.limit ≤ depth + 1 →
        outcome.ComesTo (program.apply (depth + 1) (.function (.compiled routine)) .undefined arguments world) ∨
          outcome.Overflows) := by
  obtain ⟨outcome, bound, hinvoked, hcomes⟩ := hready.exists_outcome_or_exceeds hsmall hknows hextends
  exact ⟨outcome, bound, hinvoked, fun hsize depth hdepth ↦ (hcomes hsize depth hdepth).imp_right (·.overflows)⟩

section Engines

variable {engine : Engine} {known : List Value} {closures : List Closure} {registry : Registry} {world : World}

/-- Words that can number what a script needs can number what a call needs. -/
theorem Engine.Addresses.of_eval {script : Script} (haddresses : engine.Addresses known (.eval script))
    (hmachine : engine.machine.Consistent known closures registry world)
    (hlisted : registry.Listed (engine.machine.constants.entries.toList ++ known)) (name : String)
    (arguments : List Value) : engine.Addresses known (.call name arguments) := by
  obtain ⟨-, -, -, hextends, -⟩ := hmachine.compileScript engine.strict script (Prod.eta _).symm
  have hcode : ∀ routine : Routine,
      .function (.compiled routine) ∈ engine.machine.constants.entries ∨ .function (.compiled routine) ∈ known →
        routine.unit.code.size < 4294967295 :=
    fun routine hmem ↦ haddresses.code routine (hmem.imp_left hextends.mem)
  refine ⟨Nat.lt_of_le_of_lt hextends.size_le haddresses.constants, hcode, fun routine values hruns ↦ ?_⟩
  have hregistered := hmachine.valid_lookup name
  rw [Engine.lookup_of_runs? hruns] at hregistered
  exact hcode routine ((List.mem_append.mp (hlisted _ _ hregistered)).imp_left Array.mem_toList_iff.mp)

/-- An engine answers a call of a global as a program does that knows its functions, unless the stack becomes
full. -/
theorem Machine.Consistent.exists_outcome (hmachine : engine.machine.Consistent known closures registry world)
    (hlisted : registry.Listed (engine.machine.constants.entries.toList ++ known)) {name : String}
    {arguments : List Value} (haddresses : engine.Addresses known (.call name arguments))
    (hsmall : engine.StaysSmall (.call name arguments))
    (harguments : ∀ value ∈ arguments, value.Valid registry world.store.records) {program : Program}
    (hknows : program.Knows registry) (hextends : program.constants.Extends engine.machine.constants) :
    ∃ (outcome : CallOutcome) (bound : Nat),
      (∀ steps : Nat, bound ≤ steps → engine.perform steps (.call name arguments) =
        some (Answer.ofOutcome (Engine.ofCall engine.strict outcome))) ∧
      (outcome.2.constants.size ≤ Word.indexLimit → ∀ depth : Nat, engine.machine.stack.limit ≤ depth + 1 →
        outcome.ComesTo (program.apply (depth + 1) (world.globals.lookup name) .undefined arguments world) ∨
          outcome.Overflows) := by
  have hshows := hmachine.realizes.shows
  have hglobals : engine.machine.globals = world.globals := hshows.globals
  -- what is called without running code has the same outcome whatever the number of steps
  have hother : ∀ outcome : CallOutcome,
      (∀ steps : Nat, engine.machine.callGlobal steps name arguments = some outcome) →
      (∀ depth : Nat, outcome.ComesTo
        (program.apply (depth + 1) (world.globals.lookup name) .undefined arguments world)) →
      ∃ (found : CallOutcome) (bound : Nat),
        (∀ steps : Nat, bound ≤ steps → engine.perform steps (.call name arguments) =
          some (Answer.ofOutcome (Engine.ofCall engine.strict found))) ∧
        (found.2.constants.size ≤ Word.indexLimit → ∀ depth : Nat, engine.machine.stack.limit ≤ depth + 1 →
          found.ComesTo (program.apply (depth + 1) (world.globals.lookup name) .undefined arguments world) ∨
            found.Overflows) := by
    intro outcome hcalled hcomes
    refine ⟨outcome, 0, fun steps _ ↦ ?_, fun _ depth _ ↦ Or.inl (hcomes depth)⟩
    rw [Engine.perform, Engine.call, hcalled]
    rfl
  cases hglobal : world.globals.lookup name
  case function callee =>
    cases callee with
    | compiled routine =>
      have hruns : engine.runs? (.call name arguments) = some (routine, arguments) := by
        rw [Engine.runs?, hglobals, hglobal]
      obtain ⟨outcome, bound, hinvoked, hcomes⟩ :=
        (hmachine.ready_call hlisted haddresses hruns harguments).exists_outcome
          (hsmall.not_crowds hruns) hknows hextends
      refine ⟨outcome, bound, fun steps hsteps ↦ ?_, hcomes⟩
      rw [Engine.perform_of_runs? hruns, show (engine.prepared (.call name arguments)).machine = engine.machine from
        rfl, hinvoked steps hsteps]
      rfl
    | native identity called operation =>
      rw [hglobal] at hother
      have hundefined : Value.Valid registry world.store.records .undefined := trivial
      have hcall : ∀ depth : Nat, program.apply (depth + 1) (.function (.native identity called operation))
          .undefined arguments world = operation.apply .undefined arguments world := fun _ ↦ rfl
      unfold Native.apply at hcall
      rcases hmachine.applyNative operation hundefined harguments with
        ⟨value, machine, later, happlied, hworld, hlater, -⟩ | ⟨fault, machine, later, happlied, hworld, hlater, -⟩
      all_goals rw [hworld] at hcall
      · refine hother (.ok value, machine) (fun steps ↦ ?_) fun depth ↦ ?_
        · rw [Machine.callGlobal, hglobals, hglobal]
          dsimp only
          rw [Machine.invoke, happlied]
        · rw [hcall]
          exact ⟨.value hlater.realizes.shows, hlater.world.shaped⟩
      · refine hother (.error (.atEntry fault called), machine) (fun steps ↦ ?_) fun depth ↦ ?_
        · rw [Machine.callGlobal, hglobals, hglobal]
          dsimp only
          rw [Machine.invoke, happlied]
        · rw [hcall]
          exact ⟨.fault hlater.realizes.shows, hlater.world.shaped⟩
  all_goals
    rw [hglobal] at hother
    refine hother (.error (.atEntry (.typeMismatch "function" (world.globals.lookup name).typeName) name),
      engine.machine) (fun steps ↦ ?_) fun depth ↦ ⟨?_, hmachine.world.shaped⟩
    · rw [Machine.callGlobal, hglobals, hglobal]
    · rw [hglobal]
      exact .fault hshows

/-- A program knows the functions of a machine also when functions come to it whose identities were not given
away. -/
theorem Machine.Consistent.knows_append {machine : Machine}
    (hmachine : machine.Consistent known closures registry world)
    (hconstants : machine.constants.size ≤ Word.indexLimit) {added : List Closure} {count : Nat}
    (hadded : Closure.Numbered machine.nextIdentity count added) :
    Program.Knows ⟨added ++ closures, machine.constants⟩ registry := by
  obtain ⟨hvalid, hfunctions⟩ := hmachine.knows hconstants
  refine ⟨hvalid, fun identity routine hroutine ↦ ?_⟩
  obtain ⟨closure, hfound, hcompiled⟩ := hfunctions identity routine hroutine
  refine ⟨closure, ?_, hcompiled⟩
  unfold Program.closure? at hfound ⊢
  rw [List.find?_append, hadded.find?_eq_none (hmachine.workspace.functions identity _ hroutine)]
  exact hfound

/-- Calling the function of a script is evaluating the script. -/
theorem Engine.apply_main (hconsistent : engine.Consistent known closures) {script : Script} {main : Routine}
    (hmain : engine.main? script = some main) (constants : ConstantTable) (depth : Nat) :
    Program.apply ⟨engine.closures (.eval script) ++ closures, constants⟩ (depth + 1)
        (.function (.compiled main)) .undefined [] world =
      script.evaluate engine.machine.nextIdentity ⟨engine.closures (.eval script) ++ closures, constants⟩ depth
        world := by
  have hfound : Program.closure? ⟨engine.closures (.eval script) ++ closures, constants⟩ main.identity =
      some (Closure.ofBody engine.machine.nextIdentity "main" [] script.body) := by
    unfold Program.closure?
    rw [closures_eq rfl, List.find?_append, (script.numbered_closures _).find?_eq
      (List.mem_append_right _ (List.mem_singleton.mpr rfl)) (hconsistent.identity_main hmain).symm]
    rfl
  rw [Program.apply, Program.dispatch, hfound]
  rfl

/-- The value of an argument is valid where the globals are. -/
theorem CallArgument.value_valid (hworld : world.Valid registry known) (argument : CallArgument) :
    (argument.value world.globals).Valid registry world.store.records := by
  cases argument with
  | literal written line => cases written <;> trivial
  | global name _ line => exact hworld.globals name

/-- A host that calls a global in a session, and a script that does nothing else, have the same value or the same
fault, and leave behind machines that look alike, unless the stack becomes full in one of them. -/
theorem Session.calls_agree (hsession : Session engine known closures) {name : String}
    (hname : name ≠ SlotTable.receiverName) (arguments : List CallArgument) (lines : CallLines)
    (haddresses : engine.Addresses known (.eval (Script.calling name arguments lines)))
    (hsmall : engine.StaysSmall (.eval (Script.calling name arguments lines)))
    (hsmall' : engine.StaysSmall
      (.call name (arguments.map (CallArgument.value engine.machine.globals)))) :
    ∃ (outcome outcome' : CallOutcome) (bound : Nat),
      (∀ steps : Nat, bound ≤ steps →
        engine.perform steps (.eval (Script.calling name arguments lines)) =
            some (Answer.ofOutcome (Engine.ofCall engine.strict outcome)) ∧
          engine.perform steps (.call name (arguments.map (CallArgument.value engine.machine.globals))) =
            some (Answer.ofOutcome (Engine.ofCall engine.strict outcome'))) ∧
      (outcome.2.constants.size ≤ Word.indexLimit → outcome'.2.constants.size ≤ Word.indexLimit →
        outcome.Accords outcome' ∨ outcome.Overflows ∨ outcome'.Overflows) := by
  generalize hscript : Script.calling name arguments lines = script at haddresses hsmall ⊢
  obtain ⟨registry, world, hmachine, hlisted⟩ := hsession.consistent
  have hglobals : engine.machine.globals = world.globals := hmachine.realizes.shows.globals
  rw [hglobals] at hsmall' ⊢
  -- the script is accepted
  obtain ⟨main, after, haccepted⟩ := exists_compileScript (Script.violations_calling name arguments lines engine.strict)
    ⟨engine.machine.constants, engine.machine.nextIdentity⟩
  have hadded := Lowering.addsNoFunction_calling name arguments lines engine.strict
    ⟨engine.machine.constants, engine.machine.nextIdentity⟩
  rw [haccepted] at hadded
  rw [hscript] at haccepted
  have hcompile : engine.compile script =
      (.ok main, ⟨{ engine.machine with constants := after.constants, nextIdentity := after.nextIdentity },
        engine.strict⟩) := by
    unfold Engine.compile Machine.compileWith
    rw [haccepted]
  have hmain : engine.main? script = some main := by
    rw [Engine.main?, hcompile]
    rfl
  have hruns : engine.runs? (.eval script) = some (main, []) := by
    rw [Engine.runs?, hmain]
    rfl
  obtain ⟨later, -, hready, -⟩ := hmachine.ready_main hlisted rfl haddresses hmain hruns
  have hconstants : (engine.prepared (.eval script)).machine.constants = after.constants := by
    rw [@Engine.prepared_eq _ (.eval script) script rfl, hcompile]
  have hbefore : engine.machine.constants.size ≤ Word.indexLimit :=
    Nat.le_of_lt (haddresses.of_eval hmachine hlisted name []).constants
  have hprepared := hready.consistent.knows (Nat.le_of_lt haddresses.constants)
  have hknows := hmachine.knows_append hbefore (script.numbered_closures engine.machine.nextIdentity)
  have hsame : Program.Same
      ⟨engine.closures (.eval script) ++ closures, (engine.prepared (.eval script)).machine.constants⟩
      ⟨script.closures engine.machine.nextIdentity ++ closures, engine.machine.constants⟩ := by
    rw [hconstants, @Engine.closures_eq _ (.eval script) script rfl]
    exact ⟨rfl, hadded _⟩
  -- each of the two ways comes to what the program makes of the call
  obtain ⟨outcome, bound, hinvoked, hcomes⟩ :=
    hready.exists_outcome (hsmall.not_crowds hruns) hprepared (.refl _)
  obtain ⟨outcome', bound', hperformed', hcomes'⟩ := hmachine.exists_outcome hlisted
    (haddresses.of_eval hmachine hlisted name _) hsmall' (fun value hvalue ↦ by
      obtain ⟨argument, -, rfl⟩ := List.mem_map.mp hvalue
      exact argument.value_valid hmachine.world) hknows (.refl _)
  refine ⟨outcome, outcome', max bound bound', fun steps hsteps ↦ ⟨?_, ?_⟩, fun hsize hsize' ↦ ?_⟩
  · rw [Engine.perform_of_runs? hruns, hinvoked steps (Nat.le_trans (Nat.le_max_left _ _) hsteps)]
    rfl
  · exact hperformed' steps (Nat.le_trans (Nat.le_max_right _ _) hsteps)
  · have hlimit : (engine.prepared (.eval script)).machine.stack.limit = engine.machine.stack.limit := by
      rw [Engine.prepared_stack]
    have hscripts := hcomes hsize (engine.machine.stack.limit + 1) (by omega)
    rw [Engine.apply_main hsession.consistent hmain, ← hscript, Script.evaluate_calling name arguments lines hname,
      hscript, Program.apply_eq hsame] at hscripts
    rcases hscripts with hresult | hfull
    · rcases hcomes' hsize' engine.machine.stack.limit (Nat.le_succ _) with hresult' | hfull'
      · exact Or.inl (hresult.accords hresult')
      · exact Or.inr (Or.inr hfull')
    · exact Or.inr (Or.inl hfull)

end Engines

open Lowering in
/-- A script that prints a text is accepted. It adds the name of the builtin operation and the text to the
constants. -/
theorem compileScript_print (workspace : Workspace) :
    ∃ (main : Routine) (after : Workspace),
      compileScript false (Script.calling "print" [.literal (.text "a") 1] ⟨1, 1, 1, 1⟩) workspace = .ok main after ∧
      main.unit.code.size = 12 ∧ after.constants.size ≤ workspace.constants.size + 2 ∧
      ∀ routine : Routine, .function (.compiled routine) ∈ after.constants.entries →
        .function (.compiled routine) ∈ workspace.constants.entries := by
  generalize hcompiled :
    compileScript false (Script.calling "print" [.literal (.text "a") 1] ⟨1, 1, 1, 1⟩) workspace = compiled
  simp [compileScript, compileFunction, Script.calling, CallArgument.node, routineOf, SlotTable.allocate,
    declarationsOf, Node.declarations, lowerStatements, lowerNode, lowerValues, SlotTable.slotOf?_eq_findIdx?,
    SlotTable.receiverName, constant, freshIdentity, literalWord, bind, EStateM.bind, pure, EStateM.pure,
    Except.bind, Except.pure, statementOf, valueOf, Node.isStatement, undefinedAt, endLine, SlotTable.size,
    Node.line, List.findIdx?_cons, -bind_pure_comp] at hcompiled
  subst hcompiled
  refine ⟨_, _, rfl, ?_, ?_, fun routine hmem ↦ ?_⟩
  · dsimp only
    rw [Fragment.size_assemble]
    rfl
  · dsimp only
    exact Nat.le_trans (ConstantTable.size_box_le _ _) (Nat.add_le_add_right (ConstantTable.size_box_le _ _) 1)
  · dsimp only at hmem
    exact ConstantTable.mem_of_mem_box (ConstantTable.mem_of_mem_box hmem (by rintro ⟨⟩)) (by rintro ⟨⟩)

/-- A host that prints a text and a script that does have the same outcome. -/
theorem Session.calls_agree_print :
    ∃ outcome outcome' : CallOutcome,
      (∃ bound : Nat, ∀ steps : Nat, bound ≤ steps →
        Engine.fresh.perform steps
            (.eval (Script.calling "print" [.literal (.text "a") 1] ⟨1, 1, 1, 1⟩)) =
              some (Answer.ofOutcome (Engine.ofCall false outcome)) ∧
          Engine.fresh.perform steps (.call "print" [.text "a"]) =
            some (Answer.ofOutcome (Engine.ofCall false outcome'))) ∧
      (outcome.2.constants.size ≤ Word.indexLimit → outcome'.2.constants.size ≤ Word.indexLimit →
        outcome.Accords outcome' ∨ outcome.Overflows ∨ outcome'.Overflows) := by
  obtain ⟨main, after, hcompiled, hmain, hsize, hroutines⟩ :=
    compileScript_print ⟨Engine.fresh.machine.constants, Engine.fresh.machine.nextIdentity⟩
  obtain ⟨outcome, outcome', bound, hperformed, haccords⟩ :=
    Session.calls_agree (.standard _ _ _) (by decide) [.literal (.text "a") 1] ⟨1, 1, 1, 1⟩
      (Engine.addresses_eval hcompiled (Nat.lt_of_le_of_lt hsize (by decide)) (by omega) fun routine hmem ↦
        absurd (hroutines routine (hmem.resolve_right List.not_mem_nil)) (Engine.not_mem_constants_fresh routine))
      (Engine.staysSmall_fresh _) (Engine.staysSmall_fresh _)
  exact ⟨outcome, outcome', ⟨bound, hperformed⟩, haccords⟩

/-! ### Objects of the host's own making -/

/-- The code of a script that calls a global without arguments. -/
def Fragment.calling (word : Word) : Fragment :=
  [.plain (.lookup word) 1, .plain (.constant Word.undefined) 1, .plain (.call 0) 1, .plain .ret 1,
    .plain (.constant Word.undefined) 1, .plain .ret 1]

open Lowering in
/-- A script that calls a global adds the name of the global to the constants. -/
theorem compileScript_calling (workspace : Workspace) :
    compileScript false (Script.calling "x" [] ⟨1, 1, 1, 1⟩) workspace =
      .ok ⟨workspace.nextIdentity, "main",
          (Fragment.calling (workspace.constants.box (.text "x")).1).assemble 1 1⟩
        ⟨(workspace.constants.box (.text "x")).2, workspace.nextIdentity + 1⟩ := by
  simp [compileScript, compileFunction, Script.calling, routineOf, SlotTable.allocate, declarationsOf,
    Node.declarations, lowerStatements, lowerNode, lowerValues, SlotTable.slotOf?_eq_findIdx?,
    SlotTable.receiverName, constant, freshIdentity, bind, EStateM.bind, pure, EStateM.pure, Except.bind,
    Except.pure, statementOf, valueOf, Node.isStatement, undefinedAt, endLine, SlotTable.size, Node.line,
    List.findIdx?_cons, Fragment.calling, -bind_pure_comp]

/-- A machine in the middle of a call, with a stack and constants of its own. -/
def Machine.inCall (machine : Machine) (frame : Frame) (constants : ConstantTable) (stack : Stack) (offset : Nat) :
    Activity :=
  ⟨{ machine with stack := stack, constants := constants }, frame, offset⟩

section Foreign

variable {machine : Machine} {layout : Class} {receiver : Word} {constants table : ConstantTable}

/-- The frame of a script that calls a global whose name is the first constant. -/
def Frame.calling (identity : Nat) (word : Word) : Frame :=
  ⟨⟨identity, "main", (Fragment.calling (Word.constant 1)).assemble 1 1⟩, word⟩

/-- A host begins the script with an undefined receiver. -/
theorem Machine.enterFromHost_calling (hreceiver : constants.box .undefined = (receiver, table)) (identity : Nat)
    (word : Word) :
    Execution.enterFromHost (Frame.calling identity word) .undefined []
        (machine.inCall (Frame.calling identity word) constants (Stack.ofSizes 8 64) 0) =
      .ok () (machine.inCall (Frame.calling identity word) table
        ⟨#[word, receiver, ⟨0⟩, hostReturn, word, Word.zero, Word.zero, Word.zero], 5, 1, 64⟩ 0) := by
  have hfirst : Execution.push word
      (machine.inCall (Frame.calling identity word) constants (Stack.ofSizes 8 64) 0) =
        .ok () (machine.inCall (Frame.calling identity word) constants
          ⟨#[word, Word.zero, Word.zero, Word.zero, Word.zero, Word.zero, Word.zero, Word.zero], 1, 0, 64⟩ 0) := rfl
  have hencode : ∀ stack : Stack, Execution.encode .undefined
      (machine.inCall (Frame.calling identity word) constants stack 0) =
        .ok receiver (machine.inCall (Frame.calling identity word) table stack 0) := by
    intro stack
    unfold Execution.encode Machine.encode
    dsimp only [Value.inlineWord?, inCall]
    rw [hreceiver]
  rw [Execution.enterFromHost_eq]
  refine (Execution.bind_of_ok hfirst).trans ?_
  rw [Execution.pushAll, bind_assoc, Execution.bind_of_ok (hencode _)]
  rfl

/-- The script puts an object that the global is bound to on its stack, without looking for it on the heap. -/
theorem Machine.step_calling (hglobal : machine.globals.lookup "x" = .object ⟨5, layout⟩)
    (hname : table.entries[1]? = some (.text "x")) (identity : Nat) (word : Word) (stack : Stack) :
    Execution.step (machine.inCall (Frame.calling identity word) table stack 0) =
      (Execution.push (Word.reference 5) >>= fun _ ↦ pure none)
        (machine.inCall (Frame.calling identity word) table stack 2) := by
  have hfetch : Execution.fetch (machine.inCall (Frame.calling identity word) table stack 0) =
      .ok (.lookup (Word.constant 1)) (machine.inCall (Frame.calling identity word) table stack 2) := rfl
  have hread : Execution.nameOf (Word.constant 1) (machine.inCall (Frame.calling identity word) table stack 2) =
      .ok "x" (machine.inCall (Frame.calling identity word) table stack 2) := by
    have hvalue : ScriptMachine.decode table machine.heap (Word.constant 1) = .ok (.text "x") :=
      decodeWithin_of_constant? (show table.constant? (Word.constant 1) = _ from hname) _
    have hdecoded : Execution.decode (Word.constant 1)
        (machine.inCall (Frame.calling identity word) table stack 2) =
          .ok (.text "x") (machine.inCall (Frame.calling identity word) table stack 2) :=
      Execution.decode_of_ok hvalue
    rw [Execution.nameOf, Execution.bind_of_ok hdecoded]
    rfl
  have hlookup : Execution.lookup "x" (machine.inCall (Frame.calling identity word) table stack 2) =
      .ok (.object ⟨5, layout⟩) (machine.inCall (Frame.calling identity word) table stack 2) := by
    unfold Execution.lookup
    dsimp only [inCall]
    rw [hglobal]
  rw [Execution.step, Execution.bind_of_ok hfetch, Execution.execute, Execution.bind_of_ok hread,
    Execution.bind_of_ok hlookup]
  rfl

/-- The call of an object that is not on the heap fails, because its word has no value. -/
theorem Machine.step_called (hheap : machine.heap = Heap.ofCapacity 0) (identity : Nat) (word : Word) :
    Execution.step (machine.inCall (Frame.calling identity word) table
        ⟨#[word, receiver, ⟨0⟩, hostReturn, word, Word.reference 5, Word.undefined, Word.zero], 7, 1, 64⟩ 4) =
      .error (.invalidReference 5) (machine.inCall (Frame.calling identity word) table
        ⟨#[word, receiver, ⟨0⟩, hostReturn, word, Word.reference 5, Word.undefined, Word.zero], 7, 1, 64⟩ 6) := by
  generalize hstack : Stack.mk _ 7 1 64 = stack
  have hfetch : Execution.fetch (machine.inCall (Frame.calling identity word) table stack 4) =
      .ok (.call 0) (machine.inCall (Frame.calling identity word) table stack 6) := rfl
  have hcallee : Execution.functionOf (Word.reference 5)
      (machine.inCall (Frame.calling identity word) table stack 6) =
        .error (.invalidReference 5) (machine.inCall (Frame.calling identity word) table stack 6) := by
    have hvalue : ScriptMachine.decode table machine.heap (Word.reference 5) = .error (.invalidReference 5) := by
      rw [hheap]
      rfl
    have hdecoded : Execution.decode (Word.reference 5)
        (machine.inCall (Frame.calling identity word) table stack 6) =
          .error (.invalidReference 5) (machine.inCall (Frame.calling identity word) table stack 6) :=
      Execution.decode_of_error hvalue
    rw [Execution.functionOf, Execution.bind_of_error hdecoded]
  have hcall : Execution.call 0 (machine.inCall (Frame.calling identity word) table stack 6) =
      .error (.invalidReference 5) (machine.inCall (Frame.calling identity word) table stack 6) := by
    have htop : (machine.inCall (Frame.calling identity word) table stack 6).machine.stack.top = 7 := by
      rw [← hstack]
      rfl
    have hcell : (machine.inCall (Frame.calling identity word) table stack 6).machine.stack.cell 5 =
        Word.reference 5 := by
      rw [← hstack]
      rfl
    unfold Execution.call
    dsimp only
    rw [htop, if_neg (by decide), hcell, Execution.bind_of_error hcallee]
  rw [Execution.step, Execution.bind_of_ok hfetch, Execution.execute]
  exact Execution.bind_of_error hcall

/-- The script is refused when it calls an object that is not on the heap. -/
theorem Machine.invokeRoutine_calling (hstack : machine.stack = Stack.ofSizes 8 64)
    (hheap : machine.heap = Heap.ofCapacity 0) (hglobal : machine.globals.lookup "x" = .object ⟨5, layout⟩)
    (hname : machine.constants.entries[1]? = some (.text "x")) (identity : Nat) :
    ∃ later : Machine, ∀ steps : Nat, 3 ≤ steps →
      machine.invokeRoutine steps (Frame.calling identity Word.zero).routine .undefined [] =
        some (.error ⟨.invalidReference 5, "main", 1, "FUNCALL"⟩, later) := by
  cases hword : machine.constants.box (.function (.compiled (Frame.calling identity Word.zero).routine)) with
  | mk word constants =>
  cases hreceiver : constants.box .undefined with
  | mk receiver table =>
  have hfirst := machine.constants.box_extends (.function (.compiled (Frame.calling identity Word.zero).routine))
  have hsecond := constants.box_extends .undefined
  rw [hword] at hfirst
  rw [hreceiver] at hsecond
  have hlater : table.entries[1]? = some (.text "x") := hsecond 1 _ (hfirst 1 _ hname)
  have henters : machine.Enters (Frame.calling identity Word.zero).routine .undefined []
      (machine.inCall (Frame.calling identity word) table
        ⟨#[word, receiver, ⟨0⟩, hostReturn, word, Word.zero, Word.zero, Word.zero], 5, 1, 64⟩ 0) := by
    have hstart := machine.enterFromHost_calling hreceiver identity word
    unfold Machine.Enters Machine.box
    rw [hword]
    unfold inCall at hstart
    rw [← hstack] at hstart
    exact hstart
  have hfirstStep := machine.step_calling hglobal hlater identity word
    ⟨#[word, receiver, ⟨0⟩, hostReturn, word, Word.zero, Word.zero, Word.zero], 5, 1, 64⟩
  have hpushed : (Execution.push (Word.reference 5) >>= fun _ ↦ pure (none : Option Value))
      (machine.inCall (Frame.calling identity word) table
        ⟨#[word, receiver, ⟨0⟩, hostReturn, word, Word.zero, Word.zero, Word.zero], 5, 1, 64⟩ 2) =
        .ok none (machine.inCall (Frame.calling identity word) table
          ⟨#[word, receiver, ⟨0⟩, hostReturn, word, Word.reference 5, Word.zero, Word.zero], 6, 1, 64⟩ 2) := rfl
  have hsecondStep : Execution.step (machine.inCall (Frame.calling identity word) table
      ⟨#[word, receiver, ⟨0⟩, hostReturn, word, Word.reference 5, Word.zero, Word.zero], 6, 1, 64⟩ 2) =
        .ok none (machine.inCall (Frame.calling identity word) table
          ⟨#[word, receiver, ⟨0⟩, hostReturn, word, Word.reference 5, Word.undefined, Word.zero], 7, 1, 64⟩ 4) := rfl
  have hplace : (Frame.calling identity word).locate (.invalidReference 5) 4 =
      ⟨.invalidReference 5, "main", 1, "FUNCALL"⟩ := by
    have hline : ((Fragment.calling (Word.constant 1)).assemble 1 1).lineAt 4 = 1 := by decide
    unfold Frame.locate
    dsimp only [Frame.calling]
    rw [hline]
    rfl
  have hrun : (Activity.run 3 (machine.inCall (Frame.calling identity word) table
      ⟨#[word, receiver, ⟨0⟩, hostReturn, word, Word.zero, Word.zero, Word.zero], 5, 1, 64⟩ 0)).map Prod.fst =
        some (.error ⟨.invalidReference 5, "main", 1, "FUNCALL"⟩) := by
    rw [Activity.run, hfirstStep.trans hpushed]
    dsimp only
    rw [Activity.run, hsecondStep]
    dsimp only
    rw [Activity.run, machine.step_called hheap]
    exact congrArg (fun located ↦ some (Except.error located)) hplace
  obtain ⟨⟨result, later⟩, hlater, hresult⟩ := Option.map_eq_some_iff.mp hrun
  obtain rfl : result = .error ⟨.invalidReference 5, "main", 1, "FUNCALL"⟩ := hresult
  refine ⟨later.unwind machine.stack.top machine.stack.base, fun steps hsteps ↦ ?_⟩
  rw [henters.invokeRoutine_eq, Activity.run_mono hsteps hlater]
  rfl

/-- A host that makes up an object and binds a global to it gets different faults: the script cannot call the word of
the object, which has no value, and the direct call finds an object where it wants a function. -/
theorem Engine.foreign_calls_disagree :
    ∃ (layout : Class) (first engine : Engine) (outcome outcome' : CallOutcome),
      Engine.perform 0 ⟨Machine.bare ⟨0, 8, 64⟩ (Sink.ofBudget none), false⟩ (.newClass []) =
          some (.value (.layout layout), first) ∧
        first.perform 0 (.register "x" (.object ⟨5, layout⟩)) = some (.done, engine) ∧
        "x" ≠ SlotTable.receiverName ∧
        (∀ steps : Nat, 3 ≤ steps → engine.perform steps (.eval (Script.calling "x" [] ⟨1, 1, 1, 1⟩)) =
          some (Answer.ofOutcome (Engine.ofCall engine.strict outcome))) ∧
        (∀ steps : Nat, engine.perform steps (.call "x" []) =
          some (Answer.ofOutcome (Engine.ofCall engine.strict outcome'))) ∧
        ¬ (outcome.Accords outcome' ∨ outcome.Overflows ∨ outcome'.Overflows) := by
  obtain ⟨machine, hmachine⟩ : ∃ machine : Machine,
      machine = ((Machine.bare ⟨0, 8, 64⟩ (Sink.ofBudget none)).newClass []).2.register "x" (.object ⟨5, ⟨0, []⟩⟩) :=
    ⟨_, rfl⟩
  have hglobal : machine.globals.lookup "x" = .object ⟨5, ⟨0, []⟩⟩ := by
    rw [hmachine]
    exact (Globals.lookup_register _ _ _ _).trans (if_pos rfl)
  have hconstants : machine.constants.entries = #[.undefined] := by
    rw [hmachine]
    rfl
  -- the name of the global is the first constant after undefined
  have hnew : ∀ entry ∈ machine.constants.entries, entry.constantKey? ≠ (Value.text "x").constantKey? := by
    intro entry hentry
    rw [hconstants] at hentry
    obtain rfl := Array.mem_singleton.mp hentry
    decide
  obtain ⟨hword, hentries⟩ := ConstantTable.box_new hnew
  rw [hconstants] at hword hentries
  have hcompiled : compileScript false (Script.calling "x" [] ⟨1, 1, 1, 1⟩) ⟨machine.constants, machine.nextIdentity⟩ =
      .ok (Frame.calling machine.nextIdentity Word.zero).routine
        ⟨(machine.constants.box (.text "x")).2, machine.nextIdentity + 1⟩ := by
    rw [compileScript_calling, hword]
    rfl
  obtain ⟨later, hinvoked⟩ := @Machine.invokeRoutine_calling
    { machine with constants := (machine.constants.box (.text "x")).2, nextIdentity := machine.nextIdentity + 1 } _
    (by rw [hmachine]; rfl) (by rw [hmachine]; rfl) hglobal (by rw [hentries]; rfl) machine.nextIdentity
  refine ⟨_, _, ⟨machine, false⟩, (.error ⟨.invalidReference 5, "main", 1, "FUNCALL"⟩, later),
    (.error (.atEntry (.typeMismatch "function" "object") "x"), machine), rfl, ?_, by decide, fun steps hsteps ↦ ?_,
    fun steps ↦ ?_, ?_⟩
  · rw [hmachine]
    rfl
  · rw [Engine.perform, Engine.eval, Engine.compile, Machine.compileWith]
    dsimp only
    rw [hcompiled]
    dsimp only
    rw [Machine.runMain, Machine.invoke]
    rw [hinvoked steps hsteps]
    rfl
  · rw [Engine.perform, Engine.call, Machine.callGlobal]
    dsimp only
    rw [hglobal]
    rfl
  · rintro (haccords | ⟨located, limit, hfault, hfull⟩ | ⟨located, limit, hfault, hfull⟩)
    · cases haccords with
      | fault hfault => cases hfault
    · cases hfault
      cases hfull
    · cases hfault
      cases hfull

end Foreign
end ScriptMachine
