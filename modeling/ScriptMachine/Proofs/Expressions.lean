import ScriptMachine.Proofs.HostCalls
import ScriptMachine.Proofs.OperatorCalls

/-!
# Expressions of operators

An `Expression` puts operators together over literals and globals. A script that returns one comes to the value that
the operators make of these, or to their first fault, and leaves the world as it is (`Script.evaluate_returning`). That
is also what an engine of a session answers to the script, unless it needs more words than the stack has. So the laws
of the operators hold in running code, whose operands and results are words (`operators_lawful`).
-/

set_option autoImplicit false
set_option relaxedAutoImplicit false

namespace ScriptMachine

/-! ### Operators in programs -/

/-- Every operator is bound to its symbol. -/
def Globals.BindsOperators (globals : Globals) : Prop :=
  ∀ operation : Builtin, operation ≠ .print → ∃ (identity : Nat) (name : String),
    globals.lookup operation.symbol = .function (.native identity name (.builtin operation))

/-- The standard globals bind every operator. -/
theorem Machine.bindsOperators_standardGlobals : standardGlobals.BindsOperators := by
  intro operation _
  unfold standardGlobals
  simp only [Builtin.all, builtinFunctions, List.foldl_cons, List.foldl_nil, Globals.lookup_register, Function.name]
  cases operation <;> exact ⟨_, _, rfl⟩

/-- A program that calls an operator leaves the world as it is, however deep the call is nested. -/
theorem Program.apply_operator (program : Program) (depth : Nat) {operation : Builtin} (hoperation : operation ≠ .print)
    (identity : Nat) (name : String) (receiver left right : Value) (world : World) :
    program.apply depth (.function (.native identity name (.builtin operation))) receiver [left, right] world =
      settled .failed world (operation.combine left right) := by
  have hdispatch : program.apply depth (.function (.native identity name (.builtin operation))) =
      Native.apply (.builtin operation) := by
    cases depth <;> rfl
  rw [hdispatch]
  unfold Native.apply World.applyNative
  dsimp only
  rw [Builtin.apply_pair hoperation]
  cases operation.combine left right <;> rfl

/-- An expression that puts operators together over literals and globals. -/
inductive Expression where
  | leaf (argument : CallArgument)
  | binary (operation : Builtin) (hoperation : operation ≠ .print) (left right : Expression)
      (calleeLine line : UInt32)

namespace Expression

/-- The node of an expression. -/
def node : Expression → Node
  | .leaf argument => argument.node
  | .binary operation _ left right calleeLine line =>
    .call (.access operation.symbol calleeLine) [left.node, right.node] line

/-- The value of an expression, given the globals. Operands are evaluated from left to right, and the first fault is
that of the expression. -/
def value (globals : Globals) : Expression → Except Fault Value
  | .leaf argument => .ok (argument.value globals)
  | .binary operation _ left right _ _ => do
    let left ← left.value globals
    let right ← right.value globals
    operation.combine left right

/-- An expression declares nothing. -/
theorem declarations_node (expression : Expression) : expression.node.declarations = [] := by
  induction expression with
  | leaf argument => cases argument <;> rfl
  | binary operation _ left right calleeLine line hleft hright =>
    rw [node, Node.declarations, declarationsOf, declarationsOf, declarationsOf, hleft, hright]
    rfl

/-- There is nothing wrong with an expression. -/
theorem violations_node (expression : Expression) (strict : Bool) (scope : List String) :
    expression.node.violations strict scope = [] := by
  induction expression with
  | leaf argument => cases argument <;> rfl
  | binary operation _ left right calleeLine line hleft hright =>
    rw [node, Node.violations, violationsOf, violationsOf, violationsOf, hleft, hright]
    rfl

/-- No operator has the name of the receiver. -/
theorem symbol_ne_receiverName (operation : Builtin) : operation.symbol ≠ SlotTable.receiverName := by
  cases operation <;> decide

/-- An expression is evaluated to its value or to its first fault, and changes nothing. -/
theorem evaluate_node (expression : Expression) (program : Program) (depth first : Nat) (locale : Locale)
    (hlocale : ∀ read : String, read ≠ SlotTable.receiverName → locale.bindings read = none)
    (hbinds : locale.world.globals.BindsOperators) :
    expression.node.evaluate program (program.apply depth) first locale =
      settled (fun fault ↦ .stopped (.failed fault)) locale (expression.value locale.world.globals) := by
  induction expression generalizing first with
  | leaf argument => exact argument.evaluate_node program _ first locale hlocale
  | binary operation hoperation left right calleeLine line hleft hright =>
    obtain ⟨identity, name, hcallee⟩ := hbinds operation hoperation
    have hread : Evaluation.read operation.symbol locale =
        .ok (.function (.native identity name (.builtin operation))) locale := by
      rw [Evaluation.read, hlocale _ (symbol_ne_receiverName operation), Option.getD_none, hcallee]
    have hcall : ∀ lower upper : Value,
        Evaluation.call (program.apply depth) (.function (.native identity name (.builtin operation))) .undefined
          [lower, upper] locale =
            settled (fun fault ↦ .stopped (.failed fault)) locale (operation.combine lower upper) := by
      intro lower upper
      rw [Evaluation.call, Program.apply_operator program depth hoperation]
      cases operation.combine lower upper <;> rfl
    rw [node, Node.evaluate, Node.evaluate, evaluateValues, evaluateValues, evaluateValues, value]
    simp only [bind, EStateM.bind, hread, hleft]
    cases left.value locale.world.globals with
    | error fault => rfl
    | ok lower =>
      simp only [settled, hright]
      cases right.value locale.world.globals with
      | error fault => rfl
      | ok upper => exact hcall lower upper

end Expression

/-- The script that returns the value of an expression. -/
def Script.returning (expression : Expression) (line bodyLine : UInt32) : Script :=
  ⟨⟨[.ret expression.node line], bodyLine⟩⟩

section Returning

variable (expression : Expression) (line bodyLine : UInt32)

/-- A script that returns the value of an expression declares nothing. -/
theorem Script.declarationsOf_returning : declarationsOf (returning expression line bodyLine).body.nodes = [] := by
  show expression.node.declarations ++ [] = []
  rw [expression.declarations_node]
  rfl

/-- A script that returns the value of an expression is accepted. -/
theorem Script.violations_returning (strict : Bool) : (returning expression line bodyLine).violations strict = [] := by
  have hdeclared : (returning expression line bodyLine).body.declared = [] := by
    rw [← Block.declarationsOf_nodes, declarationsOf_returning]
  rw [violations, redeclarations, hdeclared]
  show _ ++ (expression.node.violations strict _ ++ []) = []
  rw [expression.violations_node]
  cases strict <;> rfl

/-- A script that returns the value of an expression comes to that value or to the first fault, and leaves the world as
it is. -/
theorem Script.evaluate_returning (first : Nat) (program : Program) (depth : Nat) {world : World}
    (hbinds : world.globals.BindsOperators) :
    (returning expression line bodyLine).evaluate first program depth world =
      settled .failed world (expression.value world.globals) := by
  generalize hclosure : Closure.ofBody first "main" [] (returning expression line bodyLine).body = closure
  have hnone : ∀ read : String, read ≠ SlotTable.receiverName → closure.bindings .undefined [] read = none := by
    intro read hread
    rw [← hclosure, Closure.bindings, if_neg hread, Closure.ofBody]
    dsimp only
    rw [declarationsOf_returning]
    rfl
  have hvalue := expression.evaluate_node program depth closure.firstSite
    ⟨world, closure.bindings .undefined []⟩ hnone hbinds
  have hnodes : closure.body.nodes = [.ret expression.node line] := by rw [← hclosure]; rfl
  rw [evaluate, hclosure, Closure.run, hnodes, evaluateStatements, Node.evaluate]
  simp only [bind, EStateM.bind, hvalue]
  cases expression.value world.globals <;> rfl

end Returning

/-! ### Sessions -/

/-- What an engine of a session answers to a script that it accepts is what the script comes to in the world that the
engine shows, unless the script needs more words than the stack has. -/
theorem Session.exists_outcome {engine : Engine} {known : List Value} {closures : List Closure}
    (hsession : Session engine known closures) {script : Script} (hnone : script.violations engine.strict = [])
    (haddresses : engine.Addresses known (.eval script)) (hsmall : engine.StaysSmall (.eval script)) :
    ∃ (main : Routine) (world : World) (outcome : CallOutcome) (bound : Nat), engine.main? script = some main ∧
      engine.machine.Shows world ∧
      (∀ steps : Nat, bound ≤ steps → engine.perform steps (.eval script) =
        some (Answer.ofOutcome (Engine.ofCall engine.strict outcome))) ∧
      (outcome.2.constants.size ≤ Word.indexLimit → ∀ depth : Nat, engine.machine.stack.limit ≤ depth + 1 →
        outcome.ComesTo (script.evaluate engine.machine.nextIdentity (engine.program closures script) depth world) ∨
          outcome.Exceeds (engine.prepared (.eval script)).machine world main []) := by
  obtain ⟨registry, world, hmachine, hlisted⟩ := hsession.consistent
  obtain ⟨main, after, haccepted⟩ :=
    exists_compileScript hnone ⟨engine.machine.constants, engine.machine.nextIdentity⟩
  have hmain : engine.main? script = some main := by
    rw [Engine.main?, Engine.compile_of_compileScript haccepted]
    rfl
  have hruns : engine.runs? (.eval script) = some (main, []) := by
    rw [Engine.runs?, hmain]
    rfl
  obtain ⟨later, -, hready, -⟩ := hmachine.ready_main hlisted rfl haddresses hmain hruns
  obtain ⟨outcome, bound, hinvoked, hcomes⟩ := hready.exists_outcome_or_exceeds (hsmall.not_crowds hruns)
    (hready.consistent.knows (Nat.le_of_lt haddresses.constants)) (.refl _)
  have hlimit : (engine.prepared (.eval script)).machine.stack.limit = engine.machine.stack.limit := by
    rw [Engine.prepared_stack]
  have hprogram : engine.program closures script =
      ⟨engine.closures (.eval script) ++ closures, (engine.prepared (.eval script)).machine.constants⟩ := by
    rw [Engine.program, @Engine.closures_eq _ (.eval script) script rfl,
      @Engine.prepared_eq _ (.eval script) script rfl]
  refine ⟨main, world, outcome, bound, hmain, hmachine.realizes.shows, fun steps hsteps ↦ ?_,
    fun hsize depth hdepth ↦ ?_⟩
  · rw [Engine.perform_of_runs? hruns, hinvoked steps hsteps]
    rfl
  · rw [hprogram, ← Engine.apply_main hsession.consistent hmain]
    exact hcomes hsize depth (hlimit ▸ hdepth)

/-- The operators obey the laws of integers and of order on all operands, and running code computes with them: a call of
an operator on the words of two values, in whatever state of the machine, comes to what the operator makes of the
values, and an engine of a session answers to a script that returns an expression with the value of the expression or
its first fault, and shows the same world as before, unless the script needs more words than the stack has. -/
theorem operators_lawful :
    ((∀ left right : Int64, Builtin.IntegerLaws left right) ∧
        (∀ left right : Value, Builtin.OrderLaws left right) ∧
        ∀ first second third : Value, Builtin.less.Holds first second → Builtin.less.Holds second third →
          Builtin.less.Holds first third) ∧
      (∀ (activity : Activity) (operation : Builtin) (left right : Value), operation ≠ .print →
        activity.CallsOperator operation left right → activity.Answers (operation.combine left right)) ∧
      ∀ (engine : Engine) (known : List Value) (closures : List Closure) (expression : Expression)
        (line bodyLine : UInt32), Session engine known closures → engine.machine.globals.BindsOperators →
        engine.Addresses known (.eval (Script.returning expression line bodyLine)) →
        engine.StaysSmall (.eval (Script.returning expression line bodyLine)) →
        ∃ (main : Routine) (world : World) (outcome : CallOutcome) (bound : Nat),
          engine.main? (Script.returning expression line bodyLine) = some main ∧ engine.machine.Shows world ∧
          (∀ steps : Nat, bound ≤ steps →
            engine.perform steps (.eval (Script.returning expression line bodyLine)) =
              some (Answer.ofOutcome (Engine.ofCall engine.strict outcome))) ∧
          (outcome.2.constants.size ≤ Word.indexLimit →
            outcome.Agrees (settled .failed world (expression.value engine.machine.globals)) ∨
              outcome.Exceeds (engine.prepared (.eval (Script.returning expression line bodyLine))).machine world
                main []) := by
  refine ⟨⟨Builtin.integerLaws, Builtin.orderLaws, fun _ _ _ ↦ Builtin.Holds.less_trans⟩,
    fun _ _ _ _ ↦ Activity.answers_operator, ?_⟩
  intro engine known closures expression line bodyLine hsession hbinds haddresses hsmall
  obtain ⟨main, world, outcome, bound, hmain, hshows, hperformed, hcomes⟩ := hsession.exists_outcome
    (Script.violations_returning expression line bodyLine engine.strict) haddresses hsmall
  have hglobals : engine.machine.globals = world.globals := hshows.globals
  refine ⟨main, world, outcome, bound, hmain, hshows, hperformed, fun hsize ↦ ?_⟩
  have hoperators := Script.evaluate_returning expression line bodyLine engine.machine.nextIdentity
    (engine.program closures (.returning expression line bodyLine)) engine.machine.stack.limit (hglobals ▸ hbinds)
  refine (hcomes hsize engine.machine.stack.limit (Nat.le_succ _)).imp_left fun hresult ↦ ?_
  rw [hglobals, ← hoperators]
  exact hresult.agrees

/-- An expression whose sum needs an entry of the constant table and whose product leaves the range of integers. -/
def Expression.wrapping : Expression :=
  .binary .multiply (by decide)
    (.binary .add (by decide) (.leaf (.literal (.integer 2147483647) 1)) (.leaf (.literal (.integer 1) 1)) 1 1)
    (.leaf (.literal (.integer 4294967296) 1)) 1 1

open Lowering in
/-- A script that returns the expression is accepted. It adds the symbols of the two operators and one integer to the
constants. -/
theorem compileScript_wrapping (workspace : Workspace) :
    ∃ (main : Routine) (after : Workspace),
      compileScript false (Script.returning .wrapping 1 1) workspace = .ok main after ∧
      main.unit.code.size = 22 ∧ after.constants.size ≤ workspace.constants.size + 3 ∧
      ∀ routine : Routine, .function (.compiled routine) ∈ after.constants.entries →
        .function (.compiled routine) ∈ workspace.constants.entries := by
  generalize hcompiled : compileScript false (Script.returning .wrapping 1 1) workspace = compiled
  simp [compileScript, compileFunction, Script.returning, Expression.wrapping, Expression.node, CallArgument.node,
    Builtin.symbol, routineOf, SlotTable.allocate, declarationsOf, Node.declarations, lowerStatements, lowerNode,
    lowerValues, SlotTable.slotOf?_eq_findIdx?, SlotTable.receiverName, constant, freshIdentity, literalWord, bind,
    EStateM.bind, pure, EStateM.pure, Except.bind, Except.pure, statementOf, valueOf, Node.isStatement, undefinedAt,
    endLine, SlotTable.size, Node.line, List.findIdx?_cons, Word.ofInteger?, Word.smallIntegerLimit,
    -bind_pure_comp] at hcompiled
  subst hcompiled
  refine ⟨_, _, rfl, ?_, ?_, fun routine hmem ↦ ?_⟩
  · dsimp only
    rw [Fragment.size_assemble]
    rfl
  · -- one constant after the other: the two symbols and the integer
    dsimp only
    change _ ≤ workspace.constants.size + 1 + 1 + 1
    iterate 2 apply Nat.le_trans (ConstantTable.size_box_le _ _) (Nat.add_le_add_right _ 1)
    exact ConstantTable.size_box_le _ _
  · dsimp only at hmem
    exact ConstantTable.mem_of_mem_box (ConstantTable.mem_of_mem_box (ConstantTable.mem_of_mem_box hmem (by rintro ⟨⟩))
      (by rintro ⟨⟩)) (by rintro ⟨⟩)

/-- An activity that calls the function at the first position after undefined with two integers, of which the first one
is the last to fit into a word. -/
def Activity.carrying (constants : ConstantTable) : Activity :=
  ⟨{ Machine.bare ⟨0, 4, 4⟩ (Sink.ofBudget none) with
      constants := constants
      stack := ⟨#[Word.constant 1, Word.undefined, Word.smallInteger 2147483647, Word.smallInteger 1], 4, 0, 4⟩ },
    ⟨⟨1, "main", ⟨#[], #[], 1, 1⟩⟩, Word.zero⟩, 0⟩

/-- The activity calls an operator that has the position. -/
theorem Activity.callsOperator_carrying {constants : ConstantTable} {identity : Nat} {name : String}
    {operation : Builtin} (hundefined : constants.entries[0]? = some .undefined)
    (hoperation : constants.entries[1]? = some (.function (.native identity name (.builtin operation)))) :
    (carrying constants).CallsOperator operation (.integer 2147483647) (.integer 1) := by
  have hcallee : decode constants (carrying constants).machine.heap (Word.constant 1) =
      .ok (.function (.native identity name (.builtin operation))) :=
    decodeWithin_of_constant? (show constants.constant? (Word.constant 1) = _ from hoperation) _
  have hreceiver : decode constants (carrying constants).machine.heap Word.undefined = .ok .undefined :=
    decodeWithin_of_constant? (show constants.constant? Word.undefined = _ from hundefined) _
  refine ⟨Nat.le_refl 4, ⟨identity, name, hcallee⟩, ⟨.undefined, hreceiver⟩, ?_, ?_⟩
  · show decode constants _ (Word.smallInteger 2147483647) = _
    rfl
  · show decode constants _ (Word.smallInteger 1) = _
    rfl

/-- A fresh engine adds two integers to one that needs an entry of the constant table, and multiplies it to one that
leaves the range; addition takes the same step in an activity of its own. -/
theorem operators_lawful_wrapping :
    (Activity.carrying (ConstantTable.empty.box (.function (.native 0 "+" (.builtin .add)))).2).Answers
        (.ok (.integer 2147483648)) ∧
      ∃ (main : Routine) (world : World) (outcome : CallOutcome) (bound : Nat),
        Engine.fresh.main? (Script.returning .wrapping 1 1) = some main ∧ Engine.fresh.machine.Shows world ∧
        (∀ steps : Nat, bound ≤ steps →
          Engine.fresh.perform steps (.eval (Script.returning .wrapping 1 1)) =
            some (Answer.ofOutcome (Engine.ofCall false outcome))) ∧
        (outcome.2.constants.size ≤ Word.indexLimit →
          outcome.Agrees (.ok (.integer (-9223372036854775808)) world) ∨
            outcome.Exceeds (Engine.fresh.prepared (.eval (Script.returning .wrapping 1 1))).machine world main
              []) := by
  obtain ⟨main, after, hcompiled, hmain, hsize, hroutines⟩ :=
    compileScript_wrapping ⟨Engine.fresh.machine.constants, Engine.fresh.machine.nextIdentity⟩
  obtain ⟨-, hcall, heval⟩ := operators_lawful
  obtain ⟨-, hentries⟩ := @ConstantTable.box_new .empty (.function (.native 0 "+" (.builtin .add))) (by
    intro entry hentry
    obtain rfl := Array.mem_singleton.mp hentry
    rintro ⟨⟩)
  refine ⟨hcall _ .add _ _ (by decide) (Activity.callsOperator_carrying (by rw [hentries]; rfl)
    (by rw [hentries]; rfl)), ?_⟩
  exact heval Engine.fresh [] [] .wrapping 1 1 (.standard _ _ _) Machine.bindsOperators_standardGlobals
    (Engine.addresses_eval hcompiled (Nat.lt_of_le_of_lt hsize (by decide)) (by omega) fun routine hmem ↦
      absurd (hroutines routine (hmem.resolve_right List.not_mem_nil)) (Engine.not_mem_constants_fresh routine))
    (Engine.staysSmall_fresh _)

end ScriptMachine
