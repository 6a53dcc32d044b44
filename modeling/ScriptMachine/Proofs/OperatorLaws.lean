import Mathlib.Logic.ExistsUnique
import ScriptMachine.Builtin

/-!
# The laws of the operators

Sums, differences and products of integers are the exact ones, brought back into the range of 64 bits by a multiple
of 2^64 (`Builtin.Wraps`). A quotient is the exact one cut towards zero, which only leaves the range where the least
integer is divided by minus one; together with the remainder it gives the dividend back (`Builtin.Divides`).

Two integers, and two texts, are `Builtin.Comparable`, and their order decides all six comparisons at once
(`Builtin.Comparable.exists_ordering`). Values that are not comparable have no order, but they are still the same or
not.
-/

set_option autoImplicit false
set_option relaxedAutoImplicit false

namespace ScriptMachine
namespace Builtin

/-! ### Arithmetic -/

/-- An operation comes to an exact integer, reduced modulo 2^64 to the nearest residue to zero. -/
def Wraps (exact : Int) (result : Except Fault Value) : Prop :=
  ∃ value : Int64, result = .ok (.integer value) ∧ value.toInt = exact.bmod 18446744073709551616

/-- A quotient and a remainder belong to a dividend and a divisor: the quotient is cut towards zero, both together
give the dividend back modulo 2^64, and the remainder is smaller than the divisor and has no other sign than the
dividend. -/
structure Divides (dividend divisor quotient remainder : Int64) : Prop where
  truncated : quotient.toInt = (dividend.toInt.tdiv divisor.toInt).bmod 18446744073709551616
  restores : dividend.toInt = (quotient.toInt * divisor.toInt + remainder.toInt).bmod 18446744073709551616
  smaller : remainder.toInt.natAbs < divisor.toInt.natAbs
  sign : remainder = 0 ∨ remainder.toInt.sign = dividend.toInt.sign

/-- What arithmetic makes of two integers. -/
structure IntegerLaws (left right : Int64) : Prop where
  add : Wraps (left.toInt + right.toInt) (combine .add (.integer left) (.integer right))
  subtract : Wraps (left.toInt - right.toInt) (combine .subtract (.integer left) (.integer right))
  multiply : Wraps (left.toInt * right.toInt) (combine .multiply (.integer left) (.integer right))
  zeroDivisor : right = 0 → ∀ operation ∈ [divide, remainder],
    operation.combine (.integer left) (.integer right) = .error .divisionByZero
  otherDivisor : right ≠ 0 → ∃ quotient rest : Int64,
    combine .divide (.integer left) (.integer right) = .ok (.integer quotient) ∧
      combine .remainder (.integer left) (.integer right) = .ok (.integer rest) ∧
      Divides left right quotient rest

/-- The quotient and the remainder of machine integers belong to what they come from. -/
theorem divides_div_mod (left : Int64) {right : Int64} (hright : right ≠ 0) :
    Divides left right (left / right) (left % right) := by
  have hquotient := Int64.toInt_div left right
  have hremainder := Int64.toInt_mod left right
  have hdivisor : right.toInt ≠ 0 := fun hzero ↦ hright (Int64.toInt_inj.mp hzero)
  refine ⟨hquotient, ?_, ?_, ?_⟩
  · have hexact : left.toInt.tdiv right.toInt * right.toInt + left.toInt.tmod right.toInt = left.toInt := by
      rw [Int.mul_comm]
      exact Int.mul_tdiv_add_tmod _ _
    rw [hquotient, hremainder, ← Int.bmod_add_bmod, Int.bmod_mul_bmod, Int.bmod_add_bmod, hexact]
    exact (Int64.toInt_bmod_size left).symm
  · rw [hremainder, Int.natAbs_tmod]
    exact Nat.mod_lt _ (Int.natAbs_pos.mpr hdivisor)
  · by_cases hdvd : right.toInt ∣ left.toInt
    · refine Or.inl (Int64.toInt_inj.mp ?_)
      rw [hremainder, Int.tmod_eq_zero_of_dvd hdvd]
      rfl
    · refine Or.inr ?_
      rw [hremainder, Int.sign_tmod, if_neg hdvd]

/-- Arithmetic obeys its laws on all integers. -/
theorem integerLaws (left right : Int64) : IntegerLaws left right := by
  refine ⟨⟨_, rfl, Int64.toInt_add left right⟩, ⟨_, rfl, Int64.toInt_sub left right⟩,
    ⟨_, rfl, Int64.toInt_mul left right⟩, fun hzero operation hmem ↦ ?_, fun hright ↦
    ⟨left / right, left % right, ?_, ?_, divides_div_mod left hright⟩⟩
  · have hdivided : ∀ cut : Int64 → Int64 → Int64, divided cut left right = .error .divisionByZero :=
      fun _ ↦ if_pos hzero
    simp only [List.mem_cons, List.not_mem_nil, or_false] at hmem
    rcases hmem with rfl | rfl
    all_goals
      unfold combine arithmetic
      simp only [integerArgument, bind, Except.bind, hdivided]
  all_goals
    have hdivided : ∀ cut : Int64 → Int64 → Int64, divided cut left right = .ok (cut left right) :=
      fun _ ↦ if_neg hright
    unfold combine arithmetic
    simp only [integerArgument, bind, Except.bind, hdivided]
    rfl

/-- The least integer is the only one whose quotient leaves the range, and it is its own quotient by minus one. -/
example : combine .divide (.integer (-9223372036854775808)) (.integer (-1)) =
    .ok (.integer (-9223372036854775808)) :=
  rfl

/-! ### Order -/

/-- Two values that have an order: two integers or two texts. -/
inductive Comparable : Value → Value → Prop where
  | integers (left right : Int64) : Comparable (.integer left) (.integer right)
  | texts (left right : String) : Comparable (.text left) (.text right)

/-- A comparison answers with the integer one. -/
def Holds (operation : Builtin) (left right : Value) : Prop :=
  operation.combine left right = .ok (.integer 1)

/-- Two comparisons answer, one with the integer one and the other one with zero. -/
def Opposite (operation other : Builtin) (left right : Value) : Prop :=
  ∃ holds : Bool, operation.combine left right = .ok (truth holds) ∧ other.combine left right = .ok (truth !holds)

/-- What comparisons make of two values. -/
structure OrderLaws (left right : Value) : Prop where
  exactlyOne : Comparable left right →
    ∃! operation : Builtin, operation ∈ [less, equal, greater] ∧ operation.Holds left right
  notGreater : Comparable left right → Opposite atMost greater left right
  notLess : Comparable left right → Opposite atLeast less left right
  notEqual : Opposite unequal equal left right
  refused : ¬ Comparable left right → ∀ operation ∈ [less, atMost, greater, atLeast],
    ∃ found : String, operation.combine left right = .error (.typeMismatch "integer or string" found)

/-- The order of comparable values decides whether they are the same. -/
theorem Comparable.exists_ordering {left right : Value} (hcomparable : Comparable left right) :
    ∃ order : Ordering, ordering left right = .ok order ∧ left.same right = order.isEq := by
  cases hcomparable with
  | integers left right =>
    refine ⟨_, rfl, Bool.eq_iff_iff.mpr ?_⟩
    rw [Ordering.isEq_iff_eq_eq, Std.LawfulEqOrd.compare_eq_iff_eq, Int64.toInt_inj]
    exact beq_iff_eq
  | texts left right =>
    refine ⟨_, rfl, Bool.eq_iff_iff.mpr ?_⟩
    rw [Ordering.isEq_iff_eq_eq, Std.LawfulEqOrd.compare_eq_iff_eq]
    exact beq_iff_eq

/-- Values that are not comparable have no order. -/
theorem ordering_eq_error {left right : Value} (hcomparable : ¬ Comparable left right) :
    ∃ found : String, ordering left right = .error (.typeMismatch "integer or string" found) := by
  unfold ordering
  split
  · exact absurd (.integers _ _) hcomparable
  · exact absurd (.texts _ _) hcomparable
  · exact ⟨_, rfl⟩

/-- A comparison that tests the order answers when there is one. -/
theorem comparison_eq_ok {left right : Value} {order : Ordering} (hordering : ordering left right = .ok order)
    (test : Ordering → Bool) : comparison test left right = .ok (truth (test order)) := by
  rw [comparison, hordering]
  rfl

/-- Truth values stand for different integers. -/
theorem truth_eq_one_iff (holds : Bool) : (Except.ok (truth holds) : Except Fault Value) = .ok (.integer 1) ↔
    holds = true := by
  have hzero : (0 : Int64) ≠ 1 := by decide
  cases holds with
  | false => exact ⟨fun hone ↦ absurd (Value.integer.inj (Except.ok.inj hone)) hzero, by rintro ⟨⟩⟩
  | true => exact iff_of_true rfl rfl

/-- The comparison that holds between values with an order. -/
def deciding : Ordering → Builtin
  | .lt => less
  | .eq => equal
  | .gt => greater

/-- Of the three comparisons that exclude each other, the one that holds is the one for the order. -/
theorem holds_iff_eq_deciding {left right : Value} {order : Ordering} (hordering : ordering left right = .ok order)
    (hsame : left.same right = order.isEq) {operation : Builtin} (hmem : operation ∈ [less, equal, greater]) :
    operation.Holds left right ↔ operation = deciding order := by
  simp only [List.mem_cons, List.not_mem_nil, or_false] at hmem
  rcases hmem with rfl | rfl | rfl
  · rw [Holds, combine, comparison_eq_ok hordering, truth_eq_one_iff]
    cases order <;> decide
  · rw [Holds, combine, truth_eq_one_iff, hsame]
    cases order <;> decide
  · rw [Holds, combine, comparison_eq_ok hordering, truth_eq_one_iff]
    cases order <;> decide

/-- Comparisons obey their laws on all values. -/
theorem orderLaws (left right : Value) : OrderLaws left right := by
  have hequality : Opposite unequal equal left right :=
    ⟨!left.same right, rfl, by rw [Bool.not_not]; rfl⟩
  by_cases hcomparable : Comparable left right
  · obtain ⟨order, hordering, hsame⟩ := hcomparable.exists_ordering
    have hcompared := comparison_eq_ok hordering
    refine ⟨fun _ ↦ ?_, fun _ ↦ ⟨order.isLE, hcompared _, ?_⟩, fun _ ↦ ⟨order.isGE, hcompared _, ?_⟩, hequality,
      fun hincomparable ↦ absurd hcomparable hincomparable⟩
    · have hholds : ∀ operation ∈ [less, equal, greater], operation.Holds left right ↔ operation = deciding order :=
        fun _ ↦ holds_iff_eq_deciding hordering hsame
      have hmem : deciding order ∈ [less, equal, greater] := by cases order <;> decide
      exact ⟨deciding order, ⟨hmem, (hholds _ hmem).mpr rfl⟩, fun _ hother ↦ (hholds _ hother.1).mp hother.2⟩
    all_goals
      refine (hcompared _).trans ?_
      cases order <;> rfl
  · obtain ⟨found, hordering⟩ := ordering_eq_error hcomparable
    have hrefused : ∀ test : Ordering → Bool,
        comparison test left right = .error (.typeMismatch "integer or string" found) := by
      intro test
      rw [comparison, hordering]
      rfl
    refine ⟨fun h ↦ absurd h hcomparable, fun h ↦ absurd h hcomparable, fun h ↦ absurd h hcomparable, hequality,
      fun _ operation hmem ↦ ⟨found, ?_⟩⟩
    simp only [List.mem_cons, List.not_mem_nil, or_false] at hmem
    rcases hmem with rfl | rfl | rfl | rfl <;> exact hrefused _

/-- What is less than another value comes before it in the order that both have. -/
theorem Holds.less_cases {left right : Value} (hless : less.Holds left right) :
    (∃ first second : Int64, left = .integer first ∧ right = .integer second ∧
        compare first.toInt second.toInt = .lt) ∨
      ∃ first second : String, left = .text first ∧ right = .text second ∧ compare first second = .lt := by
  by_cases hcomparable : Comparable left right
  · cases hcomparable with
    | integers first second =>
      refine Or.inl ⟨first, second, rfl, rfl, Ordering.isLT_iff_eq_lt.mp ?_⟩
      exact (truth_eq_one_iff _).mp ((comparison_eq_ok rfl _).symm.trans hless)
    | texts first second =>
      refine Or.inr ⟨first, second, rfl, rfl, Ordering.isLT_iff_eq_lt.mp ?_⟩
      exact (truth_eq_one_iff _).mp ((comparison_eq_ok rfl _).symm.trans hless)
  · obtain ⟨found, hrefused⟩ := (orderLaws left right).refused hcomparable .less List.mem_cons_self
    exact absurd (hrefused.symm.trans hless) (by rintro ⟨⟩)

/-- What is less than something less is less. -/
theorem Holds.less_trans {first second third : Value} (hfirst : less.Holds first second)
    (hsecond : less.Holds second third) : less.Holds first third := by
  rcases hfirst.less_cases with ⟨lower, middle, rfl, rfl, hlower⟩ | ⟨lower, middle, rfl, rfl, hlower⟩
  all_goals
    obtain ⟨_, upper, hmiddle, rfl, hupper⟩ | ⟨_, upper, hmiddle, rfl, hupper⟩ := hsecond.less_cases
    all_goals cases hmiddle
    refine (comparison_eq_ok rfl _).trans ((truth_eq_one_iff _).mpr ?_)
    rw [Std.TransCmp.lt_trans hlower hupper]
    rfl

end Builtin
end ScriptMachine
