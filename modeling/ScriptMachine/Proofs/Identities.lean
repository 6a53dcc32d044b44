import ScriptMachine.Proofs.HeapChanges

/-!
# Running code makes no functions

Identities of functions and classes are given away by the compiler and by the host only. Whatever an
instruction does, also when it fails, it leaves the next identity of the machine as it was
(`Activity.applies_step`), and so does every call (`Machine.invoke_nextIdentity`).
-/

set_option autoImplicit false
set_option relaxedAutoImplicit false

namespace ScriptMachine

/-- A run gives away no identity. -/
theorem Activity.run_nextIdentity {steps : Nat} {activity : Activity} {outcome : CallOutcome}
    (hrun : activity.run steps = some outcome) :
    outcome.2.nextIdentity = activity.machine.nextIdentity := by
  induction steps generalizing activity with
  | zero => cases hrun
  | succ steps ih =>
    have hstep := activity.applies_step.nextIdentity
    unfold Execution.after at hstep
    unfold run at hrun
    dsimp only at hrun
    cases hresult : Execution.step activity with
    | ok value next =>
      rw [hresult] at hrun hstep
      cases value with
      | none => exact (ih hrun).trans hstep
      | some value =>
        obtain rfl := Option.some.inj hrun
        exact hstep
    | error fault next =>
      rw [hresult] at hrun hstep
      obtain rfl := Option.some.inj hrun
      exact hstep

/-- A call of a compiled function gives away no identity. -/
theorem Machine.invokeRoutine_nextIdentity {steps : Nat} {routine : Routine} {receiver : Value}
    {arguments : List Value} {machine : Machine} {outcome : CallOutcome}
    (hinvoked : machine.invokeRoutine steps routine receiver arguments = some outcome) :
    outcome.2.nextIdentity = machine.nextIdentity := by
  have hentry := (machine.grows_entry routine receiver arguments).nextIdentity
  unfold Execution.after at hentry
  unfold invokeRoutine at hinvoked
  dsimp only at hinvoked hentry
  split at hinvoked
  case h_1 fault activity hrefused =>
    rw [hrefused] at hentry
    obtain rfl := Option.some.inj hinvoked
    exact hentry
  case h_2 activity hentered =>
    rw [hentered] at hentry
    cases hrun : activity.run steps with
    | none =>
      rw [hrun] at hinvoked
      cases hinvoked
    | some found =>
      have hkept := (Activity.run_nextIdentity hrun).trans hentry
      obtain ⟨value | located, last⟩ := found <;> rw [hrun] at hinvoked <;>
        obtain rfl := Option.some.inj hinvoked <;> exact hkept

/-- A call gives away no identity. -/
theorem Machine.invoke_nextIdentity {steps : Nat} {function : Function} {receiver : Value}
    {arguments : List Value} {machine : Machine} {outcome : CallOutcome}
    (hinvoked : machine.invoke steps function receiver arguments = some outcome) :
    outcome.2.nextIdentity = machine.nextIdentity := by
  cases function with
  | compiled routine => exact Machine.invokeRoutine_nextIdentity hinvoked
  | native identity name operation =>
    unfold invoke at hinvoked
    dsimp only at hinvoked
    cases happlied : Machine.applyNative operation receiver arguments machine with
    | ok value next =>
      rw [happlied] at hinvoked
      obtain ⟨sink, rfl⟩ := Machine.exists_of_applyNative (Or.inl ⟨value, happlied⟩)
      obtain rfl := Option.some.inj hinvoked
      rfl
    | error fault next =>
      rw [happlied] at hinvoked
      obtain ⟨sink, rfl⟩ := Machine.exists_of_applyNative (Or.inr ⟨fault, happlied⟩)
      obtain rfl := Option.some.inj hinvoked
      rfl

end ScriptMachine
