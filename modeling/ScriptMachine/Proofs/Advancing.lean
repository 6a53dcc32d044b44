import Mathlib.Logic.Relation
import ScriptMachine.Proofs.ValidCalls

/-!
# Where calls in progress go on

One step of valid calls does one of three things (`CallStack.Advances`): the innermost call goes on further
behind in its own code, or it waits behind its call instruction while a new call begins, or it returns and
its caller goes on with the result. This alone bounds how long calls can be in progress: `CallStack.rank`
weighs the code that every call has left, callers more than everything they can still call, and it decreases
with every step as long as there are no more calls than a limit (`CallStack.Advances.rank_lt`).
-/

set_option autoImplicit false
set_option relaxedAutoImplicit false

namespace ScriptMachine

namespace CallStack

/-! ### The next operation -/

/-- The next operation of the innermost call and the offset behind it. -/
def next? (calls : CallStack) : Option (Operation × Nat) :=
  calls.current.routine.unit.operationAt calls.constants calls.current.offset

/-- The compiled function that the next operation calls. -/
def callee? (calls : CallStack) : Option Routine :=
  match calls.next? with
  | some (.call argumentCount, _) =>
    match calls.current.operands[argumentCount + 1]? with
    | some (.function (.compiled routine)) => some routine
    | _ => none
  | _ => none

/-- The next operation is a return. -/
def Returns (calls : CallStack) : Prop :=
  ∃ next : Nat, calls.next? = some (.ret, next)

/-- The ways in which calls go on after one operation: within the innermost call, with a new call above
it, or with its caller. -/
inductive Advances (calls later : CallStack) : Prop where
  | within (hcallee : calls.callee? = none) (hreturns : ¬ calls.Returns)
      (hcallers : later.callers = calls.callers)
      (hroutine : later.current.routine = calls.current.routine)
      (hforward : calls.current.offset < later.current.offset)
  | enters {routine : Routine} {argumentCount next : Nat} {rest : List Value}
      (hoperation : calls.next? = some (.call argumentCount, next))
      (hcallee : calls.callee? = some routine) (hforward : calls.current.offset < next)
      (hlength : calls.current.operands.length = argumentCount + 2 + rest.length)
      (hcallers : later.callers =
        { calls.current with offset := next, operands := rest } :: calls.callers)
      (hroutine : later.current.routine = routine) (hoffset : later.current.offset = 0)
  | leaves {caller : Level} {value : Value} (hreturns : calls.Returns)
      (hcallers : calls.callers = caller :: later.callers)
      (hcurrent : later.current = { caller with operands := value :: caller.operands })

/-! ### Single operations -/

section Perform

variable {calls later : CallStack}

/-- What follows when the world is read or changed stays within the innermost call. -/
theorem proceed_eq_next {rest : List Value} {outcome : Except Fault (Value × World)}
    (hproceed : calls.proceed rest outcome = .next later) :
    later.callers = calls.callers ∧ later.current.routine = calls.current.routine ∧
      later.current.offset = calls.current.offset := by
  unfold proceed at hproceed
  split at hproceed
  case h_1 =>
    obtain rfl := Progress.next.inj hproceed
    exact ⟨rfl, rfl, rfl⟩
  case h_2 => cases hproceed

/-- An operation other than a call and a return stays within the innermost call and goes on at one of its
successors. -/
theorem perform_eq_next {operation : Operation} (hcall : ∀ argumentCount : Nat, operation ≠ .call argumentCount)
    (hret : operation ≠ .ret) (hperformed : calls.perform operation = some (.next later)) :
    later.callers = calls.callers ∧ later.current.routine = calls.current.routine ∧
      later.current.offset ∈ operation.successors calls.current.offset := by
  have hkept : ∀ {changed : CallStack}, some (Progress.next changed) = some (.next later) →
      changed.callers = calls.callers → changed.current.routine = calls.current.routine →
      changed.current.offset = calls.current.offset →
      later.callers = calls.callers ∧ later.current.routine = calls.current.routine ∧
        later.current.offset ∈ [calls.current.offset] := by
    intro changed hsame hcallers hroutine hoffset
    obtain rfl := Progress.next.inj (Option.some.inj hsame)
    exact ⟨hcallers, hroutine, by rw [hoffset]; exact List.mem_cons_self⟩
  unfold perform at hperformed
  generalize calls.current.operands = operands at hperformed
  cases operation
  case push value => exact hkept hperformed rfl rfl rfl
  case lookup name => exact hkept hperformed rfl rfl rfl
  case register name =>
    obtain _ | ⟨value, rest⟩ := operands
    · cases hperformed
    · exact hkept hperformed rfl rfl rfl
  case load slot =>
    obtain ⟨value, -, hsame⟩ := Option.map_eq_some_iff.mp hperformed
    exact hkept (congrArg some hsame) rfl rfl rfl
  case store slot =>
    obtain _ | ⟨value, rest⟩ := operands
    · cases hperformed
    · dsimp only at hperformed
      split_ifs at hperformed
      exact hkept hperformed rfl rfl rfl
  case duplicate | pop =>
    obtain _ | ⟨value, rest⟩ := operands
    · cases hperformed
    · exact hkept hperformed rfl rfl rfl
  case swap =>
    obtain _ | ⟨upper, _ | ⟨lower, rest⟩⟩ := operands
    · cases hperformed
    · cases hperformed
    · exact hkept hperformed rfl rfl rfl
  case call argumentCount => exact absurd rfl (hcall argumentCount)
  case ret => exact absurd rfl hret
  case goto target =>
    obtain rfl := Progress.next.inj (Option.some.inj hperformed)
    exact ⟨rfl, rfl, List.mem_cons_self⟩
  case jumpIfFalse target =>
    obtain _ | ⟨value, rest⟩ := operands
    · cases hperformed
    · obtain rfl := Progress.next.inj (Option.some.inj hperformed)
      split_ifs
      · exact ⟨rfl, rfl, List.mem_cons_self⟩
      · exact ⟨rfl, rfl, List.mem_cons_of_mem _ List.mem_cons_self⟩
  case new layout =>
    dsimp only at hperformed
    split_ifs at hperformed
    obtain ⟨hcallers, hroutine, hoffset⟩ := proceed_eq_next (Option.some.inj hperformed)
    exact ⟨hcallers, hroutine, by rw [hoffset]; exact List.mem_cons_self⟩
  case get name =>
    obtain _ | ⟨receiver, rest⟩ := operands
    · cases hperformed
    · obtain ⟨hcallers, hroutine, hoffset⟩ := proceed_eq_next (Option.some.inj hperformed)
      exact ⟨hcallers, hroutine, by rw [hoffset]; exact List.mem_cons_self⟩
  case put name =>
    obtain _ | ⟨value, _ | ⟨receiver, rest⟩⟩ := operands
    · cases hperformed
    · cases hperformed
    · dsimp only at hperformed
      split at hperformed
      case h_1 => exact hkept hperformed rfl rfl rfl
      case h_2 => cases hperformed

/-- A call that goes on either stays within the innermost call, because the function was a native one, or
begins a compiled one. -/
theorem call_eq_next {callee receiver : Value} {arguments rest : List Value}
    (hcalled : calls.call callee receiver arguments rest = some (.next later)) :
    ((∀ routine : Routine, callee ≠ .function (.compiled routine)) ∧ later.callers = calls.callers ∧
        later.current.routine = calls.current.routine ∧
        later.current.offset = calls.current.offset) ∨
      ∃ routine : Routine, callee = .function (.compiled routine) ∧
        later = calls.enter routine receiver arguments rest := by
  unfold call at hcalled
  split at hcalled
  case h_1 identity name operation =>
    split at hcalled
    case h_1 =>
      obtain rfl := Progress.next.inj (Option.some.inj hcalled)
      exact Or.inl ⟨fun routine hsame ↦ (nomatch hsame), rfl, rfl, rfl⟩
    case h_2 => cases hcalled
  case h_2 routine =>
    split_ifs at hcalled
    · cases hcalled
    · obtain rfl := Progress.next.inj (Option.some.inj hcalled)
      exact Or.inr ⟨routine, rfl, rfl⟩
  case h_3 => cases hcalled

end Perform

namespace Valid

variable {calls later : CallStack} {registry : Registry} {known : List Value}

/-- Valid calls go on in one of the three ways. -/
theorem advances (hvalid : calls.Valid registry known) (hstep : calls.step = some (.next later)) :
    calls.Advances later := by
  obtain @⟨_, _, next, operation, hoperation, -, -, hforward, -⟩ := hvalid.safe
  have hnext : calls.next? = some (operation, next) := hoperation
  unfold CallStack.step at hstep
  rw [hoperation] at hstep
  dsimp only at hstep
  by_cases hret : operation = .ret
  · subst hret
    unfold perform at hstep
    rcases hoperands : (calls.withOffset next).current.operands with _ | ⟨value, rest⟩ <;>
      rw [hoperands] at hstep
    · cases hstep
    · have hleft := Option.some.inj hstep
      unfold leave at hleft
      cases hcallers : calls.callers with
      | nil =>
        rw [show (calls.withOffset next).callers = [] from hcallers] at hleft
        cases hleft
      | cons caller callers =>
        rw [show (calls.withOffset next).callers = caller :: callers from hcallers] at hleft
        obtain rfl := Progress.next.inj hleft
        exact .leaves ⟨next, hnext⟩ hcallers rfl
  · have hreturns : ¬ calls.Returns := by
      rintro ⟨other, hother⟩
      rw [hnext] at hother
      exact hret (congrArg Prod.fst (Option.some.inj hother))
    by_cases hcall : ∃ argumentCount : Nat, operation = .call argumentCount
    · obtain ⟨argumentCount, rfl⟩ := hcall
      unfold perform at hstep
      dsimp only at hstep
      split at hstep
      case h_1 receiver callee rest hoperands =>
        have hdrop : calls.current.operands.drop argumentCount = receiver :: callee :: rest := hoperands
        have hfound : calls.current.operands[argumentCount + 1]? = some callee := by
          rw [← List.getElem?_drop, hdrop]
          rfl
        have hpast : calls.current.offset < next := hforward next List.mem_cons_self
        rcases call_eq_next hstep with ⟨hnative, hcallers, hroutine, hoffset⟩ | ⟨routine, rfl, rfl⟩
        · refine .within ?_ hreturns hcallers hroutine (by rw [hoffset]; exact hpast)
          unfold callee?
          rw [hnext]
          dsimp only
          rw [hfound]
          split
          case h_1 routine hsame => exact absurd (Option.some.inj hsame) (hnative routine)
          case h_2 => rfl
        · refine .enters hnext ?_ hpast ?_ rfl rfl rfl
          · unfold callee?
            rw [hnext]
            dsimp only
            rw [hfound]
            rfl
          · have hlength := congrArg List.length hdrop
            simp only [List.length_drop, List.length_cons] at hlength
            omega
      case h_2 => cases hstep
    · have hother : ∀ argumentCount : Nat, operation ≠ .call argumentCount :=
        fun argumentCount hsame ↦ hcall ⟨argumentCount, hsame⟩
      obtain ⟨hcallers, hroutine, hoffset⟩ := perform_eq_next hother hret hstep
      refine .within ?_ hreturns hcallers hroutine (hforward _ hoffset)
      unfold callee?
      rw [hnext]
      cases operation
      case call argumentCount => exact absurd rfl (hother argumentCount)
      all_goals rfl

end Valid

/-! ### How long calls can be in progress -/

/-- One more than the code that a call can have left. -/
def rankBase : Nat :=
  4294967296

/-- The code that a call has left. -/
def codeLeft (level : Level) : Nat :=
  level.routine.unit.code.size - level.offset

/-- The weight of the code that some calls have left. A call weighs more than all the calls that it can
still make when no more than a limit of them are in progress. -/
def rankOf (limit : Nat) : List Level → Nat
  | [] => 0
  | level :: callers => codeLeft level * rankBase ^ (limit - callers.length) + rankOf limit callers

/-- The weight of the code that is left. -/
def rank (limit : Nat) (calls : CallStack) : Nat :=
  rankOf limit (calls.current :: calls.callers)

/-- Less code left in the innermost call weighs less. -/
theorem rankOf_lt {limit : Nat} {level later : Level} {callers : List Level}
    (hless : codeLeft later < codeLeft level) :
    rankOf limit (later :: callers) < rankOf limit (level :: callers) := by
  have hpositive : 0 < rankBase ^ (limit - callers.length) := Nat.pow_pos (by decide)
  exact Nat.add_lt_add_right (Nat.mul_lt_mul_of_pos_right hless hpositive) _

namespace Valid

variable {calls later : CallStack} {registry : Registry} {known : List Value}

/-- Valid calls have code left. -/
theorem offset_lt (hvalid : calls.Valid registry known) :
    calls.current.offset < calls.current.routine.unit.code.size := by
  obtain @⟨_, _, next, operation, hoperation, -, -, -, -⟩ := hvalid.safe
  obtain ⟨instruction, hinstruction, -, -⟩ := CodeUnit.exists_instruction_of_operationAt hoperation
  have hinside := CodeUnit.add_size_le_of_instructionAt hinstruction
  have hpositive := instruction.size_pos
  omega

/-- The code of the innermost call is no longer than what a word can count. -/
theorem size_lt (hvalid : calls.Valid registry known) :
    calls.current.routine.unit.code.size < 4294967295 :=
  (hvalid.code _ _ hvalid.current.routine).size

/-- Every step makes the code that is left weigh less. -/
theorem rank_lt (hvalid : calls.Valid registry known) (hlater : later.Valid registry known)
    (hadvances : calls.Advances later) {limit : Nat} (hlimit : later.callers.length < limit) :
    later.rank limit < calls.rank limit := by
  have hinside := hvalid.offset_lt
  unfold rank
  cases hadvances with
  | within hcallee hreturns hcallers hroutine hforward =>
    rw [hcallers]
    refine rankOf_lt ?_
    have hlaterInside := hlater.offset_lt
    rw [hroutine] at hlaterInside
    unfold codeLeft
    rw [hroutine]
    omega
  | @enters routine argumentCount next rest hoperation hcallee hforward hlength hcallers hroutine hoffset =>
    rw [hcallers, List.length_cons] at hlimit
    -- the new call weighs less than one word of code of its caller, which has moved on by more than that
    have hsplit : rankBase ^ (limit - calls.callers.length) =
        rankBase * rankBase ^ (limit - (calls.callers.length + 1)) := by
      rw [Nat.mul_comm, ← Nat.pow_succ]
      congr 1
      omega
    have hpositive : 0 < rankBase ^ (limit - (calls.callers.length + 1)) := Nat.pow_pos (by decide)
    have hcalleeLeft : codeLeft later.current < rankBase := by
      have hsmall := hlater.size_lt
      unfold codeLeft rankBase
      omega
    have hcallerLeft : codeLeft ⟨calls.current.routine, next, calls.current.locals, rest⟩ + 1 ≤
        codeLeft calls.current := by
      unfold codeLeft
      dsimp only
      omega
    rw [hcallers, rankOf, rankOf, rankOf, List.length_cons]
    calc codeLeft later.current * rankBase ^ (limit - (calls.callers.length + 1)) +
          (codeLeft ⟨calls.current.routine, next, calls.current.locals, rest⟩ *
            rankBase ^ (limit - calls.callers.length) + rankOf limit calls.callers)
        < rankBase * rankBase ^ (limit - (calls.callers.length + 1)) +
          (codeLeft ⟨calls.current.routine, next, calls.current.locals, rest⟩ *
            rankBase ^ (limit - calls.callers.length) + rankOf limit calls.callers) :=
          Nat.add_lt_add_right (Nat.mul_lt_mul_of_pos_right hcalleeLeft hpositive) _
      _ = (codeLeft ⟨calls.current.routine, next, calls.current.locals, rest⟩ + 1) *
            rankBase ^ (limit - calls.callers.length) + rankOf limit calls.callers := by
          rw [← hsplit, Nat.succ_mul]
          omega
      _ ≤ codeLeft calls.current * rankBase ^ (limit - calls.callers.length) +
            rankOf limit calls.callers :=
          Nat.add_le_add_right (Nat.mul_le_mul_right _ hcallerLeft) _
  | @leaves caller value hreturns hcallers hcurrent =>
    rw [hcallers, hcurrent, rankOf, rankOf, rankOf, List.length_cons]
    have hleft : 0 < codeLeft calls.current := by
      unfold codeLeft
      omega
    have hpositive : 0 < rankBase ^ (limit - (later.callers.length + 1)) := Nat.pow_pos (by decide)
    exact Nat.lt_add_of_pos_left (Nat.mul_pos hleft hpositive)

/-- A single call in progress weighs no more than this. -/
theorem rank_lt_of_callers (hvalid : calls.Valid registry known) (hcallers : calls.callers = [])
    (limit : Nat) : calls.rank limit < rankBase ^ (limit + 1) := by
  have hpositive : 0 < rankBase ^ limit := Nat.pow_pos (by decide)
  have hleft : codeLeft calls.current < rankBase := by
    have hsmall := hvalid.size_lt
    unfold codeLeft rankBase
    omega
  unfold rank
  rw [hcallers, rankOf, rankOf, List.length_nil, Nat.sub_zero, Nat.add_zero, Nat.pow_succ, Nat.mul_comm]
  exact Nat.mul_lt_mul_of_pos_left hleft hpositive

end Valid

end CallStack

end ScriptMachine
