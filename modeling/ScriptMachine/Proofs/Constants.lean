import Mathlib.Data.List.Basic
import ScriptMachine.Encoding

/-!
# Growth of the constant table

A constant table only ever grows, and `ConstantTable.Extends` says so: every entry of the smaller table
stands at the same position of the larger one. `ConstantTable.register_extends` and
`ConstantTable.exists_getElem_register` are what registering a value does, and
`ConstantTable.mem_entries_register` is that it adds nothing else.

`ConstantTable.Boxed` relates a word to the entry that it was made for, and `ConstantTable.constant?`
reads a word as an entry. The two agree as long as the position fits into a word
(`ConstantTable.Boxed.constant?_eq`); past that limit a word still stands for some entry
(`ConstantTable.Boxed.exists_constant?`), though maybe for another one.
-/

set_option autoImplicit false
set_option relaxedAutoImplicit false

namespace ScriptMachine

namespace ConstantTable

/-! ### Growth -/

/-- Every entry of a table stands at the same position of another one. -/
def Extends (smaller larger : ConstantTable) : Prop :=
  ∀ (position : Nat) (value : Value),
    smaller.entries[position]? = some value → larger.entries[position]? = some value

/-- Every table extends itself. -/
theorem Extends.refl (table : ConstantTable) : table.Extends table :=
  fun _ _ hentry ↦ hentry

/-- A table that extends an extension extends the first table. -/
theorem Extends.trans {first second third : ConstantTable} (hfirst : first.Extends second)
    (hsecond : second.Extends third) : first.Extends third :=
  fun position value hentry ↦ hsecond position value (hfirst position value hentry)

/-- A table has no more entries than one that extends it. -/
theorem Extends.size_le {smaller larger : ConstantTable} (hextends : smaller.Extends larger) :
    smaller.size ≤ larger.size := by
  by_contra hless
  have hinside : larger.size < smaller.entries.size := Nat.lt_of_not_le hless
  have hentry := hextends larger.size _ (Array.getElem?_eq_getElem hinside)
  have hnone : larger.entries[larger.size]? = none := Array.getElem?_eq_none (Nat.le_refl _)
  rw [hnone] at hentry
  cases hentry

/-- An entry of a table is one of every extension. -/
theorem Extends.mem {smaller larger : ConstantTable} (hextends : smaller.Extends larger)
    {value : Value} (hmem : value ∈ smaller.entries) : value ∈ larger.entries := by
  obtain ⟨position, hentry⟩ := Array.mem_iff_getElem?.mp hmem
  exact Array.mem_iff_getElem?.mpr ⟨position, hextends position value hentry⟩

/-- A row of entries that is continued keeps its entries. -/
theorem getElem?_push_of_some {entries : Array Value} {position : Nat} {value added : Value}
    (hentry : entries[position]? = some value) : (entries.push added)[position]? = some value := by
  have hinside : position < entries.size := by
    by_contra houtside
    rw [Array.getElem?_eq_none (Nat.le_of_not_lt houtside)] at hentry
    cases hentry
  rw [Array.getElem?_push_lt hinside, ← hentry, Array.getElem?_eq_getElem hinside]

/-! ### Registering a value -/

/-- Registering a value either finds an entry with its key and changes nothing, or appends the value. -/
theorem register_cases (table : ConstantTable) (value : Value) :
    (∃ found : Value, (table.register value).2 = table ∧
        table.entries[(table.register value).1]? = some found ∧
        found.constantKey? = value.constantKey? ∧ value.constantKey?.isSome) ∨
      ((table.register value).1 = table.entries.size ∧
        (table.register value).2.entries = table.entries.push value) := by
  unfold register
  dsimp only
  split
  case h_1 hkey => exact Or.inr ⟨rfl, rfl⟩
  case h_2 own hkey =>
    split
    case h_1 position hposition =>
      rw [table.positions_eq, Array.findIdx?_eq_some_iff_getElem] at hposition
      obtain ⟨hinside, hsame, -⟩ := hposition
      refine Or.inl ⟨table.entries[position], rfl, Array.getElem?_eq_getElem hinside, ?_, ?_⟩
      · rw [hkey]
        exact beq_iff_eq.mp hsame
      · rw [hkey]
        rfl
    case h_2 hposition => exact Or.inr ⟨rfl, rfl⟩

/-- Registering a value extends the table. -/
theorem register_extends (table : ConstantTable) (value : Value) :
    table.Extends (table.register value).2 := by
  intro position entry hentry
  rcases table.register_cases value with ⟨_, hsame, -⟩ | ⟨-, hpushed⟩
  · rw [hsame]
    exact hentry
  · rw [hpushed]
    exact getElem?_push_of_some hentry

/-- Registering a value adds no other entry. -/
theorem mem_entries_register {table : ConstantTable} {value entry : Value}
    (hmem : entry ∈ (table.register value).2.entries) : entry ∈ table.entries ∨ entry = value := by
  rcases table.register_cases value with ⟨_, hsame, -⟩ | ⟨-, hpushed⟩
  · rw [hsame] at hmem
    exact Or.inl hmem
  · rw [hpushed] at hmem
    exact Array.mem_push.mp hmem

/-- The position of a registered value holds an entry with its key. It is the value itself, or an entry
that stood there before. -/
theorem exists_getElem_register (table : ConstantTable) (value : Value) :
    ∃ found : Value, (table.register value).2.entries[(table.register value).1]? = some found ∧
      (found = value ∨ found ∈ table.entries ∧ found.constantKey? = value.constantKey? ∧
        value.constantKey?.isSome) := by
  rcases table.register_cases value with ⟨found, hsame, hfound, hkey, hsome⟩ | ⟨hposition, hpushed⟩
  · rw [hsame]
    exact ⟨found, hfound, Or.inr ⟨Array.mem_iff_getElem?.mpr ⟨_, hfound⟩, hkey, hsome⟩⟩
  · rw [hpushed, hposition]
    exact ⟨value, Array.getElem?_push_size, Or.inl rfl⟩

/-- A value with a new key gets the next position. -/
theorem register_new {table : ConstantTable} {value : Value}
    (hnew : ∀ entry ∈ table.entries, entry.constantKey? ≠ value.constantKey?) :
    (table.register value).1 = table.entries.size ∧ (table.register value).2.entries = table.entries.push value := by
  rcases table.register_cases value with ⟨entry, -, hentry, hkey, -⟩ | hpushed
  · exact absurd hkey (hnew entry (Array.mem_of_getElem? hentry))
  · exact hpushed

/-! ### Words of entries -/

/-- A word was made for the position of an entry. -/
def Boxed (table : ConstantTable) (word : Word) (value : Value) : Prop :=
  ∃ position : Nat, table.entries[position]? = some value ∧
    word = Word.constant (UInt32.ofNat position)

/-- A word of an entry is one in every extension. -/
theorem Boxed.mono {smaller larger : ConstantTable} {word : Word} {value : Value}
    (hboxed : smaller.Boxed word value) (hextends : smaller.Extends larger) :
    larger.Boxed word value := by
  obtain ⟨position, hentry, hword⟩ := hboxed
  exact ⟨position, hextends position value hentry, hword⟩

/-- The value with a word in the table is among the entries. -/
theorem Boxed.mem {table : ConstantTable} {word : Word} {value : Value}
    (hboxed : table.Boxed word value) : value ∈ table.entries := by
  obtain ⟨position, hentry, -⟩ := hboxed
  exact Array.mem_iff_getElem?.mpr ⟨position, hentry⟩

/-- The entry that a word refers to. -/
def constant? (table : ConstantTable) (word : Word) : Option Value :=
  match word.kind with
  | .constant index => table.get? index
  | _ => none

/-- An entry read through a word is read in every extension. -/
theorem constant?_mono {smaller larger : ConstantTable} (hextends : smaller.Extends larger)
    {word : Word} {value : Value} (hvalue : smaller.constant? word = some value) :
    larger.constant? word = some value := by
  unfold constant? at hvalue ⊢
  split at hvalue
  case h_1 index hkind => exact hextends index.toNat value hvalue
  case h_2 => cases hvalue

/-- The value read through a word is among the entries. -/
theorem mem_of_constant? {table : ConstantTable} {word : Word} {value : Value}
    (hvalue : table.constant? word = some value) : value ∈ table.entries := by
  unfold constant? at hvalue
  split at hvalue
  case h_1 index hkind => exact Array.mem_iff_getElem?.mpr ⟨index.toNat, hvalue⟩
  case h_2 => cases hvalue

/-- As long as all positions fit into a word, a word made for an entry refers to it. -/
theorem Boxed.constant?_eq {table : ConstantTable} {word : Word} {value : Value}
    (hboxed : table.Boxed word value) (hsize : table.size ≤ Word.indexLimit) :
    table.constant? word = some value := by
  obtain ⟨position, hentry, rfl⟩ := hboxed
  have hinside : position < table.size := by
    by_contra houtside
    rw [Array.getElem?_eq_none (Nat.le_of_not_lt houtside)] at hentry
    cases hentry
  have hposition : (UInt32.ofNat position).toNat = position := by
    rw [UInt32.toNat_ofNat']
    simp only [Word.indexLimit] at hsize
    omega
  have hkind : (Word.constant (UInt32.ofNat position)).kind = .constant (UInt32.ofNat position) := by
    refine Word.kind_constant _ ?_
    rw [hposition]
    exact Nat.lt_of_lt_of_le hinside hsize
  unfold constant?
  rw [hkind]
  change table.entries[(UInt32.ofNat position).toNat]? = some value
  rw [hposition]
  exact hentry

/-- A word made for any position is read as a position that is no later. -/
theorem exists_kind_constant (index : UInt32) :
    ∃ read : UInt32, (Word.constant index).kind = .constant read ∧ read.toNat ≤ index.toNat := by
  refine ⟨(index * 4 + 3) / 4, Word.kind_constant_eq index, ?_⟩
  simp only [UInt32.toNat_div, UInt32.toNat_add, UInt32.toNat_mul, UInt32.reduceToNat]
  omega

/-- A word made for the position of an entry refers to some entry, however large the table is. -/
theorem Boxed.exists_constant? {table : ConstantTable} {word : Word} {value : Value}
    (hboxed : table.Boxed word value) : ∃ found : Value, table.constant? word = some found := by
  obtain ⟨position, hentry, rfl⟩ := hboxed
  have hinside : position < table.entries.size := by
    by_contra houtside
    rw [Array.getElem?_eq_none (Nat.le_of_not_lt houtside)] at hentry
    cases hentry
  obtain ⟨read, hkind, hread⟩ := exists_kind_constant (UInt32.ofNat position)
  have hcut : (UInt32.ofNat position).toNat ≤ position := by
    rw [UInt32.toNat_ofNat']
    exact Nat.mod_le _ _
  have hless : read.toNat < table.entries.size := by omega
  refine ⟨table.entries[read.toNat], ?_⟩
  unfold constant?
  rw [hkind]
  exact Array.getElem?_eq_getElem hless

/-! ### Boxing a value -/

/-- Boxing a value extends the table. -/
theorem box_extends (table : ConstantTable) (value : Value) : table.Extends (table.box value).2 :=
  table.register_extends value

/-- Boxing a value adds one entry at most. -/
theorem size_box_le (table : ConstantTable) (value : Value) : (table.box value).2.size ≤ table.size + 1 := by
  have hregistered : (table.box value).2 = (table.register value).2 := rfl
  rw [hregistered, size, size]
  rcases table.register_cases value with ⟨_, hsame, -⟩ | ⟨-, hpushed⟩
  · rw [hsame]
    exact Nat.le_succ _
  · rw [hpushed]
    exact Nat.le_of_eq (Array.size_push value)

/-- The word of a boxed value was made for an entry with its key, which is the value itself or stood
in the table before. -/
theorem exists_boxed_box (table : ConstantTable) (value : Value) :
    ∃ found : Value, (table.box value).2.Boxed (table.box value).1 found ∧
      (found = value ∨ found ∈ table.entries ∧ found.constantKey? = value.constantKey? ∧
        value.constantKey?.isSome) := by
  obtain ⟨found, hentry, hfound⟩ := table.exists_getElem_register value
  exact ⟨found, ⟨_, hentry, rfl⟩, hfound⟩

/-- Boxing a value adds no other entry. -/
theorem mem_entries_box {table : ConstantTable} {value entry : Value}
    (hmem : entry ∈ (table.box value).2.entries) : entry ∈ table.entries ∨ entry = value :=
  mem_entries_register hmem

/-- The word of a value with a new key is that of the next position. -/
theorem box_new {table : ConstantTable} {value : Value}
    (hnew : ∀ entry ∈ table.entries, entry.constantKey? ≠ value.constantKey?) :
    (table.box value).1 = Word.constant (UInt32.ofNat table.entries.size) ∧
      (table.box value).2.entries = table.entries.push value := by
  obtain ⟨hposition, hentries⟩ := register_new hnew
  exact ⟨congrArg (fun position ↦ Word.constant (UInt32.ofNat position)) hposition, hentries⟩

end ConstantTable

end ScriptMachine
