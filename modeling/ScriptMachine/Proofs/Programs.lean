import ScriptMachine.Proofs.CompiledScripts
import ScriptMachine.Proofs.Evaluation

/-!
# Programs that mean the same

A `Program` is a list of functions and a table of constants. Of the table only the functions count: programs with the
same functions, and the same function for every literal, mean the same (`Node.evaluate_eq`, `Program.apply_eq`). A
compilation that adds no function to the constants keeps such a program (`Lowering.AddsNoFunction`).
-/

set_option autoImplicit false
set_option relaxedAutoImplicit false

namespace ScriptMachine

/-! ### Programs that mean the same -/

/-- Two programs have the same functions, and the same function for every literal. -/
structure Program.Same (program program' : Program) : Prop where
  closures : program.closures = program'.closures
  functionAt : ∀ identity : Nat, program.functionAt identity = program'.functionAt identity

section Programs

variable {program program' : Program}

/-- Several nodes mean the same when each one does. -/
theorem evaluateValues_eq {apply : Callable} {nodes : List Node}
    (hnodes : ∀ node ∈ nodes, ∀ first : Nat,
      node.evaluate program apply first = node.evaluate program' apply first) (first : Nat) :
    evaluateValues program apply first nodes = evaluateValues program' apply first nodes := by
  induction nodes generalizing first with
  | nil => rfl
  | cons node rest ih =>
    unfold evaluateValues
    rw [hnodes node List.mem_cons_self, ih fun other hmem ↦ hnodes other (List.mem_cons_of_mem _ hmem)]

/-- Several statements mean the same when each one does. -/
theorem evaluateStatements_eq {apply : Callable} {nodes : List Node}
    (hnodes : ∀ node ∈ nodes, ∀ first : Nat,
      node.evaluate program apply first = node.evaluate program' apply first) (first : Nat) :
    evaluateStatements program apply first nodes = evaluateStatements program' apply first nodes := by
  induction nodes generalizing first with
  | nil => rfl
  | cons node rest ih =>
    unfold evaluateStatements
    rw [hnodes node List.mem_cons_self, ih fun other hmem ↦ hnodes other (List.mem_cons_of_mem _ hmem)]

/-- The initial values of fields mean the same when each one does. -/
theorem evaluateFields_eq {apply : Callable} {fields : List (Field Node)}
    (hfields : ∀ field ∈ fields, ∀ first : Nat,
      field.value.evaluate program apply first = field.value.evaluate program' apply first) (first : Nat) :
    evaluateFields program apply first fields = evaluateFields program' apply first fields := by
  induction fields generalizing first with
  | nil => rfl
  | cons field rest ih =>
    unfold evaluateFields
    rw [hfields field List.mem_cons_self, ih fun other hmem ↦ hfields other (List.mem_cons_of_mem _ hmem)]

/-- A node means the same in programs that have the same function for every literal. -/
theorem Node.evaluate_eq (hsame : program.Same program') (apply : Callable) (node : Node) (first : Nat) :
    node.evaluate program apply first = node.evaluate program' apply first := by
  induction node using Node.induction generalizing first with
  | block body hnodes =>
    unfold evaluate
    rw [evaluateStatements_eq hnodes]
  | literal value line | access name line =>
    unfold evaluate
    rfl
  | call callee arguments line hcallee harguments =>
    unfold evaluate
    rw [hcallee, evaluateValues_eq harguments]
  | assignment name value declares line hvalue | ret value line hvalue =>
    unfold evaluate
    rw [hvalue]
  | function name parameters body line hnodes =>
    unfold evaluate
    rw [hsame.functionAt]
  | conditional condition thenBlock elseBlock line hcondition hthen helse =>
    unfold evaluate
    rw [hcondition, evaluateStatements_eq hthen, evaluateStatements_eq helse]
  | object fields line hfields =>
    unfold evaluate
    rw [evaluateFields_eq hfields]
  | fieldAccess receiver name line hreceiver =>
    unfold evaluate
    rw [hreceiver]
  | fieldAssignment receiver name value line hreceiver hvalue =>
    unfold evaluate
    rw [hreceiver, hvalue]
  | methodCall receiver name arguments line hreceiver harguments =>
    unfold evaluate
    rw [hreceiver, evaluateValues_eq harguments]

/-- Calls come to the same in programs that mean the same. -/
theorem Program.apply_eq (hsame : program.Same program') (depth : Nat) :
    program.apply depth = program'.apply depth := by
  have hdispatch : ∀ enter : Closure → Value → List Value → EStateM Stop World Value,
      program.dispatch enter = program'.dispatch enter := by
    intro enter
    unfold dispatch closure?
    rw [hsame.closures]
  induction depth with
  | zero => exact hdispatch _
  | succ depth ih =>
    unfold apply
    rw [hdispatch, ih]
    congr 1
    funext closure receiver arguments world
    unfold Closure.run
    rw [evaluateStatements_eq fun node _ ↦ node.evaluate_eq hsame _]

end Programs

/-! ### Compilations that add no function -/

/-- A larger table has no other function for an identity. -/
def ConstantTable.KeepsFunctions (table later : ConstantTable) : Prop :=
  ∀ (closures : List Closure) (identity : Nat),
    Program.functionAt ⟨closures, later⟩ identity = Program.functionAt ⟨closures, table⟩ identity

/-- A constant that is no compiled function does not count. -/
theorem ConstantTable.keepsFunctions_box (table : ConstantTable) {value : Value}
    (hvalue : ∀ routine : Routine, value ≠ .function (.compiled routine)) :
    table.KeepsFunctions (table.box value).2 := by
  intro closures identity
  show Program.functionAt ⟨closures, (table.register value).2⟩ identity = _
  rcases table.register_cases value with ⟨_, hsame, -⟩ | ⟨-, hentries⟩
  · rw [hsame]
  · unfold Program.functionAt
    dsimp only
    rw [hentries, Array.find?_push]
    refine congrArg (fun found : Option Value ↦ found.getD .undefined) ?_
    rcases value with _ | _ | _ | _ | ⟨_ | routine⟩ | _ | _ | _
    case function.compiled => exact absurd rfl (hvalue routine)
    all_goals exact Option.or_none

namespace Lowering

/-- A part of a compilation adds no function to the constants, whether it fails or not. -/
def AddsNoFunction {α : Type} (part : Lowering α) : Prop :=
  ∀ workspace : Workspace,
    match part workspace with
    | .ok _ after | .error _ after => workspace.constants.KeepsFunctions after.constants

namespace AddsNoFunction

variable {α β : Type}

theorem pure (answer : α) : AddsNoFunction (Pure.pure answer) :=
  fun _ _ _ ↦ rfl

theorem throw (error : CompileError) : AddsNoFunction (throwThe CompileError error : Lowering α) :=
  fun _ _ _ ↦ rfl

theorem freshIdentity : AddsNoFunction Lowering.freshIdentity :=
  fun _ _ _ ↦ rfl

theorem constant {value : Value} (hvalue : ∀ routine : Routine, value ≠ .function (.compiled routine)) :
    AddsNoFunction (Lowering.constant value) :=
  fun workspace ↦ workspace.constants.keepsFunctions_box hvalue

theorem bind {part : Lowering α} {rest : α → Lowering β} (hpart : AddsNoFunction part)
    (hrest : ∀ answer : α, AddsNoFunction (rest answer)) : AddsNoFunction (part >>= rest) := by
  intro workspace
  have hfirst := hpart workspace
  simp only [Bind.bind, EStateM.bind]
  cases hresult : part workspace with
  | error error after =>
    rw [hresult] at hfirst
    exact hfirst
  | ok answer after =>
    rw [hresult] at hfirst
    have hsecond := hrest answer after
    dsimp only at hfirst ⊢
    cases hlast : rest answer after <;> rw [hlast] at hsecond <;>
      exact fun closures identity ↦ (hsecond closures identity).trans (hfirst closures identity)

theorem literalWord (value : Literal) : AddsNoFunction (Lowering.literalWord value) := by
  cases value <;> rw [Lowering.literalWord]
  case integer =>
    split
    · exact .pure _
    · exact .constant (by rintro _ ⟨⟩)
  case undefined => exact .pure _
  all_goals exact .constant (by rintro _ ⟨⟩)

theorem routineOf {strict : Bool} {name : String} {parameters : List String} {body : Block Node} {line : UInt32}
    {lowerBody : SlotTable → Lowering Fragment} (hbody : ∀ slots : SlotTable, AddsNoFunction (lowerBody slots)) :
    AddsNoFunction (Lowering.routineOf strict name parameters body line lowerBody) := by
  unfold Lowering.routineOf
  split
  · exact .throw _
  · exact (hbody _).bind fun _ ↦ freshIdentity.bind fun _ ↦ .pure _

end AddsNoFunction

end Lowering

end ScriptMachine
