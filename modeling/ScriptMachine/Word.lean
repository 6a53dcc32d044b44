/-!
# Tagged words

Every cell of the operand stack, every cell of the heap and every operand in a code unit is one
32-bit `Word`. Its low bits say how the rest is read: a word that is even holds a small integer in
its upper 31 bits, a word that is one above a multiple of four holds the start of an object on the
heap, and a word that is three above a multiple of four holds a position in the constant table.
`Word.kind` reads a word as one of the three kinds, and `Word.smallInteger`, `Word.reference` and
`Word.constant` build them. A position has 30 bits, so `Word.indexLimit` positions can be addressed;
`Word.kind_reference` and `Word.kind_constant` read back every position below that limit, and
`Word.kind_smallInteger` every integer below `Word.smallIntegerLimit`.
-/

set_option autoImplicit false
set_option relaxedAutoImplicit false

namespace ScriptMachine

/-- A 32-bit cell of the stack, of the heap or of a code unit. -/
structure Word where
  bits : UInt32
  deriving DecidableEq, Inhabited, Repr

namespace Word

/-! ### The three kinds -/

/-- What the tag of a word says about it. -/
inductive Kind where
  | smallInteger (value : UInt32)
  | reference (index : UInt32)
  | constant (index : UInt32)
  deriving DecidableEq, Repr

/-- The kind of a word, read from its two lowest bits. -/
def kind (word : Word) : Kind :=
  if word.bits % 2 = 0 then .smallInteger (word.bits / 2)
  else if word.bits % 4 = 1 then .reference (word.bits / 4)
  else .constant (word.bits / 4)

/-- The word of a small integer. -/
def smallInteger (value : UInt32) : Word :=
  ⟨value * 2⟩

/-- The word that refers to the object starting at a heap index. -/
def reference (index : UInt32) : Word :=
  ⟨index * 4 + 1⟩

/-- The word that refers to an entry of the constant table. -/
def constant (index : UInt32) : Word :=
  ⟨index * 4 + 3⟩

/-! ### Limits and distinguished words -/

/-- Integers from zero up to this limit, which is excluded, fit into a word. -/
def smallIntegerLimit : Nat :=
  2147483648

/-- Heap indices and constant positions below this limit fit into a word. -/
def indexLimit : Nat :=
  1073741824

/-- The constant table holds undefined at position zero, so this word stands for undefined. -/
def undefined : Word :=
  constant 0

/-- The word of the small integer zero, which a conditional jump takes for false. Cells that were never
written hold it. -/
def zero : Word :=
  ⟨0⟩

/-- The word of an integer that is small enough to need no entry in the constant table. -/
def ofInteger? (value : Int64) : Option Word :=
  if 0 ≤ value.toInt ∧ value.toInt < smallIntegerLimit then
    some (smallInteger (UInt32.ofNat value.toInt.toNat))
  else none

/-- The heap index of a word that is a reference. -/
def reference? (word : Word) : Option UInt32 :=
  match word.kind with
  | .reference index => some index
  | _ => none

/-! ### Reading back what was built -/

/-- A small integer is read back. -/
theorem kind_smallInteger (value : UInt32) (hvalue : value.toNat < smallIntegerLimit) :
    (smallInteger value).kind = .smallInteger value := by
  have heven : (value * 2) % 2 = 0 := by
    apply UInt32.toNat_inj.mp
    simp only [UInt32.toNat_mod, UInt32.toNat_mul, UInt32.reduceToNat]
    omega
  have hhalf : value * 2 / 2 = value := by
    apply UInt32.toNat_inj.mp
    simp only [UInt32.toNat_div, UInt32.toNat_mul, UInt32.reduceToNat]
    simp only [smallIntegerLimit] at hvalue
    omega
  simp [kind, smallInteger, heven, hhalf]

/-- A heap index below the limit is read back. -/
theorem kind_reference (index : UInt32) (hindex : index.toNat < indexLimit) :
    (reference index).kind = .reference index := by
  simp only [indexLimit] at hindex
  have hodd : ¬ (index * 4 + 1) % 2 = 0 := by
    intro heven
    have hnat := congrArg UInt32.toNat heven
    simp only [UInt32.toNat_mod, UInt32.toNat_add, UInt32.toNat_mul, UInt32.reduceToNat] at hnat
    omega
  have htag : (index * 4 + 1) % 4 = 1 := by
    apply UInt32.toNat_inj.mp
    simp only [UInt32.toNat_mod, UInt32.toNat_add, UInt32.toNat_mul, UInt32.reduceToNat]
    omega
  have hquarter : (index * 4 + 1) / 4 = index := by
    apply UInt32.toNat_inj.mp
    simp only [UInt32.toNat_div, UInt32.toNat_add, UInt32.toNat_mul, UInt32.reduceToNat]
    omega
  simp [kind, reference, hodd, htag, hquarter]

/-- A word made for any position is read as that of a constant, whose position has lost the bits that do not fit. -/
theorem kind_constant_eq (index : UInt32) : (constant index).kind = .constant ((index * 4 + 3) / 4) := by
  have hodd : ¬ (index * 4 + 3) % 2 = 0 := by
    intro heven
    have hnat := congrArg UInt32.toNat heven
    simp only [UInt32.toNat_mod, UInt32.toNat_add, UInt32.toNat_mul, UInt32.reduceToNat] at hnat
    omega
  have htag : ¬ (index * 4 + 3) % 4 = 1 := by
    intro hone
    have hnat := congrArg UInt32.toNat hone
    simp only [UInt32.toNat_mod, UInt32.toNat_add, UInt32.toNat_mul, UInt32.reduceToNat] at hnat
    omega
  simp [kind, constant, hodd, htag]

/-- A constant position below the limit is read back. -/
theorem kind_constant (index : UInt32) (hindex : index.toNat < indexLimit) :
    (constant index).kind = .constant index := by
  simp only [indexLimit] at hindex
  have hquarter : (index * 4 + 3) / 4 = index := by
    apply UInt32.toNat_inj.mp
    simp only [UInt32.toNat_div, UInt32.toNat_add, UInt32.toNat_mul, UInt32.reduceToNat]
    omega
  rw [kind_constant_eq, hquarter]

end Word

end ScriptMachine
