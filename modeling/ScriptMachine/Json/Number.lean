/-!
# JSON numbers

A `Number` is a number as it is written: an integer, or a decimal with the digits before and behind its
point and its exponent. `Number.toInt?` is the integer that it spells.

Whether a number is within the range of the doubles (`Number.isFinite`) is decided by an
`Approximation`: as many leading digits as a 64-bit word holds, times a power of ten. The word and the
power are each rounded to a double, and the number is out of range where the product of the two rounds to
no finite one. So a number right at the edge may be refused although it lies below the largest double, and
one with a digit more may be taken although it lies above.

`roundToMultiple_near` says that rounding moves a number by half a unit at most.
-/

set_option autoImplicit false
set_option relaxedAutoImplicit false

namespace ScriptMachine

namespace Json

/-! ### Rounding -/

/-- The multiple of a unit next to a value, and of two that are equally near the even one. -/
def roundToMultiple (unit value : Nat) : Nat :=
  let excess := value % unit
  if 2 * excess < unit ∨ 2 * excess = unit ∧ value / unit % 2 = 0 then unit * (value / unit)
  else unit * (value / unit + 1)

/-- Rounding moves a value by half a unit at most. -/
theorem roundToMultiple_near {unit : Nat} (hunit : 0 < unit) (value : Nat) :
    2 * (value - roundToMultiple unit value) ≤ unit ∧
      2 * (roundToMultiple unit value - value) ≤ unit := by
  have hvalue := Nat.div_add_mod value unit
  have hexcess := Nat.mod_lt value hunit
  simp only [roundToMultiple, Nat.mul_add, Nat.mul_one]
  split <;> omega

/-- A value with as many of its leading bits as the significand of a double has, rounded to nearest. -/
def roundToDouble (value : Nat) : Nat :=
  roundToMultiple (Nat.pow 2 (value.log2 - 52)) value

/-- The smallest magnitude that rounds to no finite double: half a unit above the largest one. -/
def overflowBound : Nat :=
  Nat.pow 2 1024 - Nat.pow 2 970

/-- The greatest power of ten that is below the overflow bound. -/
def greatestPower : Int :=
  308

/-! ### Approximations -/

/-- A significand that a 64-bit word holds, times a power of ten. -/
structure Approximation where
  significand : Nat
  exponent : Int
  fits : significand < UInt64.size
  deriving DecidableEq, Repr

namespace Approximation

/-- The leading digits of a natural number. -/
def ofNat (value : Nat) : Approximation :=
  if hfits : value < UInt64.size then ⟨value, 0, hfits⟩
  else
    let leading := ofNat (value / 10)
    { leading with exponent := leading.exponent + 1 }
termination_by value
decreasing_by
  have hpositive : 0 < UInt64.size := by decide
  exact Nat.div_lt_self (by omega) (by decide)

/-- An approximation with further digits behind it, up to the first that does not fit. -/
def extend (approximation : Approximation) : List Nat → Approximation
  | [] => approximation
  | digit :: rest =>
    if hfits : approximation.significand * 10 + digit < UInt64.size then
      extend ⟨approximation.significand * 10 + digit, approximation.exponent - 1, hfits⟩ rest
    else approximation

/-- An approximation times a power of ten. -/
def scale (approximation : Approximation) (exponent : Int) : Approximation :=
  { approximation with exponent := approximation.exponent + exponent }

/-- Whether the product of the significand and the power of ten, both rounded, lies beyond the doubles.
A power that is no double itself is never spelled out. -/
def overflows (approximation : Approximation) : Bool :=
  if approximation.significand = 0 then false
  else if approximation.exponent ≤ 0 then false
  else if greatestPower < approximation.exponent then true
  else
    overflowBound ≤
      roundToDouble approximation.significand *
        roundToDouble (Nat.pow 10 approximation.exponent.toNat)

end Approximation

/-! ### Numbers -/

/-- A number as it is written. -/
inductive Number where
  | integer (negative : Bool) (magnitude : Nat)
  | decimal (negative : Bool) (whole : Nat) (fraction : List Nat) (exponent : Int)
  deriving DecidableEq, Repr

namespace Number

/-- The number of an integer. -/
def ofInt (value : Int) : Number :=
  .integer (value < 0) value.natAbs

/-- The integer that a number spells. A decimal spells none, and neither does minus zero. -/
def toInt? : Number → Option Int
  | .integer false magnitude => some magnitude
  | .integer true 0 => none
  | .integer true (magnitude + 1) => some (-(magnitude + 1 : Nat))
  | .decimal _ _ _ _ => none

/-- The magnitude of a number, as far as a 64-bit word holds its digits. -/
def approximation : Number → Approximation
  | .integer _ magnitude => .ofNat magnitude
  | .decimal _ whole fraction exponent => ((Approximation.ofNat whole).extend fraction).scale exponent

/-- Whether a number is within the range of the doubles. -/
def isFinite (number : Number) : Bool :=
  !number.approximation.overflows

/-- An integer is read back from its number. -/
@[simp] theorem toInt?_ofInt (value : Int) : (ofInt value).toInt? = some value := by
  cases value with
  | ofNat magnitude =>
    have hnegative : decide (Int.ofNat magnitude < 0) = false := decide_eq_false (by simp)
    simp only [ofInt, hnegative, toInt?]
    rfl
  | negSucc magnitude =>
    have hnegative : decide (Int.negSucc magnitude < 0) = true := by simp
    simp only [ofInt, hnegative, Int.natAbs_negSucc, toInt?]
    rfl

end Number

end Json

end ScriptMachine
