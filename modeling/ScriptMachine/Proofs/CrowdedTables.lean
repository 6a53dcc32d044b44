import ScriptMachine.Proofs.CanonicalWords

/-!
# Constant tables with too many entries

A word has room for the position of an entry below `Word.indexLimit`, and no table is kept from growing beyond it.
The word of a later entry is that of an entry before (`Word.constant_eq_of_mod`), so that a value leads back to
itself just when its entry lies below the limit (`ConstantTable.same_decode_iff`). A table does grow so far if enough
integers are registered (`ConstantTable.crowded`), and then an integer is taken for undefined.
-/

set_option autoImplicit false
set_option relaxedAutoImplicit false

namespace ScriptMachine

/-- Positions that differ by a multiple of the limit have the same word. -/
theorem Word.constant_eq_of_mod (position : Nat) :
    constant (UInt32.ofNat position) = constant (UInt32.ofNat (position % indexLimit)) := by
  unfold constant
  refine congrArg Word.mk (UInt32.toNat_inj.mp ?_)
  simp only [UInt32.toNat_add, UInt32.toNat_mul, UInt32.toNat_ofNat', UInt32.reduceToNat, indexLimit]
  omega

/-- The word of a position leads to the remainder of the position. -/
theorem Word.kind_constant_mod (position : Nat) :
    (constant (UInt32.ofNat position)).kind = .constant (UInt32.ofNat (position % indexLimit)) := by
  have hless : position % indexLimit < indexLimit := Nat.mod_lt _ (by decide)
  rw [constant_eq_of_mod]
  refine kind_constant _ ?_
  rw [UInt32.toNat_ofNat_of_lt' (Nat.lt_trans hless (by decide))]
  exact hless

namespace ConstantTable

variable {table : ConstantTable} {value found : Value} {position : Nat}

/-- The word of a position leads to the entry at the remainder of the position. -/
theorem decode_constant (hentry : table.entries[position % Word.indexLimit]? = some found) (heap : Heap) :
    decode table heap (Word.constant (UInt32.ofNat position)) = .ok found := by
  have hless : position % Word.indexLimit < Word.indexLimit := Nat.mod_lt _ (by decide)
  refine decodeWithin_of_constant? ?_ _
  unfold constant?
  rw [Word.kind_constant_mod]
  show table.entries[(UInt32.ofNat (position % Word.indexLimit)).toNat]? = some found
  rw [UInt32.toNat_ofNat_of_lt' (Nat.lt_trans hless (by decide))]
  exact hentry

/-- The entry at the remainder of the position of a value is equal to the value just when the position is its own
remainder. -/
theorem Leads.exists_remainder (hleads : table.Leads value position) (hsome : value.constantKey?.isSome) :
    ∃ found : Value, table.entries[position % Word.indexLimit]? = some found ∧
      (found.same value = true ↔ position < Word.indexLimit) := by
  obtain ⟨entry, hentry, hkey, hfirst⟩ := hleads
  by_cases hless : position < Word.indexLimit
  · rw [Nat.mod_eq_of_lt hless]
    exact ⟨entry, hentry, iff_of_true (Value.same_of_constantKey? hkey (hkey ▸ hsome)) hless⟩
  · -- an earlier entry has another key
    have hearlier : position % Word.indexLimit < position :=
      Nat.lt_of_lt_of_le (Nat.mod_lt _ (by decide)) (Nat.le_of_not_lt hless)
    obtain ⟨hinside, -⟩ := Array.getElem?_eq_some_iff.mp hentry
    have hbefore := Array.getElem?_eq_getElem (Nat.lt_trans hearlier hinside)
    refine ⟨_, hbefore, iff_of_false (fun hsame ↦ ?_) hless⟩
    exact hfirst _ _ hearlier hbefore (Value.constantKey?_eq_of_same hsame)

/-- A value other than an object has a key. -/
theorem isSome_constantKey?_of_ne (hvalue : ∀ reference : ObjectRef, value ≠ .object reference) :
    value.constantKey?.isSome := by
  cases value
  case object reference => exact absurd rfl (hvalue reference)
  all_goals rfl

/-- The word of a value that gets an entry leads to the entry at the remainder of its position. -/
theorem exists_decode_box (table : ConstantTable) (heap : Heap) (hsome : value.constantKey?.isSome) :
    ∃ found : Value, decode (table.box value).2 heap (table.box value).1 = .ok found ∧
      (table.box value).2.entries[(table.register value).1 % Word.indexLimit]? = some found ∧
      (found.same value = true ↔ (table.register value).1 < Word.indexLimit) := by
  obtain ⟨found, hentry, hsame⟩ := (@leads_register table value hsome).exists_remainder hsome
  exact ⟨found, decode_constant hentry heap, hentry, hsame⟩

/-- An integer that needs no entry leads back to itself. -/
theorem decode_inline (hvalue : ∀ reference : ObjectRef, value ≠ .object reference) {word : Word}
    (hword : value.inlineWord? = some word) (heap : Heap) : decode table heap word = .ok value := by
  cases value
  case integer number =>
    obtain ⟨small, hkind, hsmall⟩ := Word.kind_of_ofInteger? hword
    unfold decode decodeWithin
    rw [hkind]
    dsimp only
    rw [hsmall]
  case object reference => exact absurd rfl (hvalue reference)
  all_goals cases hword

/-- A value that needs an entry is encoded by its entry. -/
theorem encode_eq_box (hinline : value.inlineWord? = none) : table.encode value = table.box value := by
  unfold encode
  rw [hinline]

/-- The word of a value other than an object leads back to an equal value just when it needs no entry or the entry
has a position below the limit. In any case it leads to the entry at the remainder of the position. -/
theorem same_decode_iff (table : ConstantTable) (heap : Heap)
    (hvalue : ∀ reference : ObjectRef, value ≠ .object reference) :
    (∃ found : Value, decode (table.box value).2 heap (table.box value).1 = .ok found ∧
        (table.box value).2.entries[(table.register value).1 % Word.indexLimit]? = some found ∧
        (found.same value = true ↔ (table.register value).1 < Word.indexLimit)) ∧
      ∃ found : Value, decode (table.encode value).2 heap (table.encode value).1 = .ok found ∧
        (found.same value = true ↔
          value.inlineWord?.isSome ∨ (table.register value).1 < Word.indexLimit) := by
  have hboxed := exists_decode_box table heap (isSome_constantKey?_of_ne hvalue)
  refine ⟨hboxed, ?_⟩
  cases hinline : value.inlineWord? with
  | some word =>
    rw [show table.encode value = (word, table) from settles_of_inlineWord? hinline]
    exact ⟨value, decode_inline hvalue hinline heap, iff_of_true value.same_refl (Or.inl rfl)⟩
  | none =>
    obtain ⟨found, hdecoded, -, hsame⟩ := hboxed
    rw [encode_eq_box hinline]
    exact ⟨found, hdecoded, hsame.trans (or_iff_right Bool.false_ne_true).symm⟩

/-- In a fresh table, the first text gets the second entry and is read back. -/
theorem same_decode_text :
    (∀ reference : ObjectRef, Value.text "a" ≠ .object reference) ∧
      ∃ found : Value,
        decode (empty.encode (.text "a")).2 (Heap.ofCapacity 64) (empty.encode (.text "a")).1 = .ok found ∧
          found.same (.text "a") = true := by
  have htext : ∀ reference : ObjectRef, Value.text "a" ≠ .object reference := by
    rintro reference ⟨⟩
  obtain ⟨-, found, hdecoded, hsame⟩ := same_decode_iff empty (Heap.ofCapacity 64) htext
  refine ⟨htext, found, hdecoded, hsame.mpr (Or.inr ?_)⟩
  have hnew : ∀ entry ∈ empty.entries, entry.constantKey? ≠ (Value.text "a").constantKey? := by
    intro entry hentry
    obtain rfl := Array.mem_singleton.mp hentry
    rintro ⟨⟩
  rw [(register_new hnew).1]
  decide

/-! ### A table that is too large -/

/-- The negative integer of a number, counted from minus one downwards. -/
def negative (number : Nat) : Value :=
  .integer (Int64.ofInt (-(number + 1 : Nat)))

/-- Small numbers have different negative integers. -/
theorem negative_key_ne {number other : Nat} (hless : number < other) (hother : other < 2147483648) :
    (negative number).constantKey? ≠ (negative other).constantKey? := by
  intro hsame
  have hbits := ConstantKey.integer.inj (Option.some.inj hsame)
  have hint := congrArg Int64.toInt hbits
  rw [Int64.toInt_ofInt_of_le (by omega) (by omega), Int64.toInt_ofInt_of_le (by omega) (by omega)] at hint
  omega

/-- A table in which some negative integers are registered. -/
def crowded : (count : Nat) → ConstantTable
  | 0 => empty
  | count + 1 => ((crowded count).register (negative count)).2

/-- The next integer has a new key. -/
theorem negative_new {count : Nat} (hcount : count + 1 ≤ 2147483648)
    (hentries : ∀ entry ∈ table.entries, entry = .undefined ∨ ∃ number < count, entry = negative number) :
    ∀ entry ∈ table.entries, entry.constantKey? ≠ (negative count).constantKey? := by
  intro entry hentry
  rcases hentries entry hentry with rfl | ⟨number, hless, rfl⟩
  · rintro ⟨⟩
  · exact negative_key_ne hless hcount

/-- A crowded table has an entry for each of the integers, behind undefined. -/
theorem entries_crowded {count : Nat} (hcount : count ≤ 2147483648) :
    (crowded count).size = count + 1 ∧ (crowded count).entries[0]? = some .undefined ∧
      ∀ entry ∈ (crowded count).entries, entry = .undefined ∨ ∃ number < count, entry = negative number := by
  induction count with
  | zero => exact ⟨rfl, rfl, fun entry hentry ↦ Or.inl (Array.mem_singleton.mp hentry)⟩
  | succ count ih =>
    obtain ⟨hsize, hundefined, hentries⟩ := ih (by omega)
    obtain ⟨-, hpushed⟩ := register_new (negative_new hcount hentries)
    unfold crowded
    refine ⟨?_, ?_, fun entry hentry ↦ ?_⟩
    · rw [ConstantTable.size, hpushed, Array.size_push]
      exact congrArg (· + 1) hsize
    · rw [hpushed, Array.getElem?_push_lt (by rw [← ConstantTable.size, hsize]; exact Nat.succ_pos _),
        ← Array.getElem?_eq_getElem]
      exact hundefined
    · rw [hpushed] at hentry
      rcases Array.mem_push.mp hentry with hold | rfl
      · refine (hentries entry hold).imp_right ?_
        rintro ⟨number, hless, hsame⟩
        exact ⟨number, Nat.lt_succ_of_lt hless, hsame⟩
      · exact Or.inr ⟨count, Nat.lt_succ_self _, rfl⟩

/-- The table with one integer less than the limit has all entries that words have room for, and takes the next integer
for undefined. -/
theorem decode_crowded {count : Nat} (hcount : count + 1 = Word.indexLimit) (heap : Heap) :
    (crowded count).size = Word.indexLimit ∧
      decode ((crowded count).encode (negative count)).2 heap ((crowded count).encode (negative count)).1 =
        .ok .undefined := by
  have hsmall : count + 1 ≤ 2147483648 := by
    rw [hcount]
    decide
  obtain ⟨hsize, hundefined, hentries⟩ := entries_crowded (Nat.le_of_succ_le hsmall)
  obtain ⟨hposition, -⟩ := register_new (negative_new hsmall hentries)
  have hinline : (negative count).inlineWord? = none := by
    show Word.ofInteger? (Int64.ofInt (-(count + 1 : Nat))) = none
    rw [Word.ofInteger?, Int64.toInt_ofInt_of_le (by omega) (by omega), if_neg (by omega)]
  refine ⟨hsize.trans hcount, ?_⟩
  rw [encode_eq_box hinline, box]
  refine decode_constant ?_ heap
  rw [hposition, ← ConstantTable.size, hsize, hcount, Nat.mod_self]
  exact register_extends _ _ 0 _ hundefined

end ConstantTable

/-- There is a memory in which a value that is registered is read back as another one. -/
theorem Memory.exists_alias :
    ∃ (memory : Memory) (value : Value), memory.Reached ∧ (∀ reference : ObjectRef, value ≠ .object reference) ∧
      memory.table.size = Word.indexLimit ∧
      decode (memory.table.encode value).2 memory.heap (memory.table.encode value).1 = .ok .undefined ∧
      Value.undefined.same value = false := by
  obtain ⟨count, hcount⟩ : ∃ count : Nat, count + 1 = Word.indexLimit := ⟨1073741823, rfl⟩
  obtain ⟨hsize, hdecoded⟩ := ConstantTable.decode_crowded hcount (Heap.ofCapacity 64)
  have hbecomes : ∀ count : Nat, (initial 64).Becomes ⟨ConstantTable.crowded count, Heap.ofCapacity 64, []⟩ := by
    intro count
    induction count with
    | zero => exact .refl
    | succ count ih => exact ih.tail (.register _ (ConstantTable.negative count))
  refine ⟨_, ConstantTable.negative count, ⟨64, hbecomes count⟩, ?_, hsize, hdecoded, rfl⟩
  rintro reference ⟨⟩

end ScriptMachine
