import Mathlib.Logic.Relation
import ScriptMachine.Proofs.Snapshot

/-!
# Encoding loses nothing

A `Memory` is a constant table with a heap, and with the places of the objects on it. It grows when a value
is registered, when an object is made whose class word refers to a class, and when a field of an object is
written (`Memory.Step`). Whatever happens, entries and class words stay what they are
(`Memory.Keeps.of_becomes`).

So the word of a value leads back to an equal value at any later time, encoding the value again answers with
the same word, and two values have the same word exactly when they are equal
(`Memory.Reached.encode_canonical`). What makes this work is that a table finds an entry by its key, that
equal values have equal keys, and that the first entry with a key stays the first one
(`ConstantTable.Settles.mono`).
-/

set_option autoImplicit false
set_option relaxedAutoImplicit false

namespace ScriptMachine

/-! ### Equal values -/

namespace Value

variable {left middle right : Value}

/-- Equal values have the same key. -/
theorem constantKey?_eq_of_same (hsame : left.same right = true) : left.constantKey? = right.constantKey? := by
  cases left <;> cases right
  case integer.integer => exact congrArg (fun key ↦ some (ConstantKey.integer key)) (eq_of_beq hsame)
  case text.text => exact congrArg (fun key ↦ some (ConstantKey.text key)) (eq_of_beq hsame)
  case boolean.boolean => exact congrArg (fun key ↦ some (ConstantKey.boolean key)) (eq_of_beq hsame)
  case function.function => exact congrArg (fun key ↦ some (ConstantKey.function key)) (eq_of_beq hsame)
  case layout.layout => exact congrArg (fun key ↦ some (ConstantKey.layout key)) (eq_of_beq hsame)
  all_goals first | rfl | exact absurd hsame Bool.false_ne_true

/-- Values that have the same key are equal. -/
theorem same_of_constantKey? (hkey : left.constantKey? = right.constantKey?)
    (hsome : left.constantKey?.isSome) : left.same right = true := by
  cases left <;> cases right
  case integer.integer => exact beq_iff_eq.mpr (ConstantKey.integer.inj (Option.some.inj hkey))
  case text.text => exact beq_iff_eq.mpr (ConstantKey.text.inj (Option.some.inj hkey))
  case boolean.boolean => exact beq_iff_eq.mpr (ConstantKey.boolean.inj (Option.some.inj hkey))
  case function.function => exact beq_iff_eq.mpr (ConstantKey.function.inj (Option.some.inj hkey))
  case layout.layout => exact beq_iff_eq.mpr (ConstantKey.layout.inj (Option.some.inj hkey))
  all_goals first | rfl | exact absurd hsome Bool.false_ne_true | cases hkey

/-- Equal values need no entry both or neither, and have the same word in the first case. -/
theorem inlineWord?_eq_of_same (hsame : left.same right = true) : left.inlineWord? = right.inlineWord? := by
  cases left <;> cases right
  case integer.integer => exact congrArg Word.ofInteger? (eq_of_beq hsame)
  case object.object => exact congrArg (fun index ↦ some (Word.reference index)) (eq_of_beq hsame)
  all_goals first | rfl | exact absurd hsame Bool.false_ne_true

theorem same_trans (hleft : left.same middle = true) (hright : middle.same right = true) :
    left.same right = true := by
  have hkeys := (constantKey?_eq_of_same hleft).trans (constantKey?_eq_of_same hright)
  cases left
  case object reference =>
    -- objects have no key, so that their indices are compared
    cases middle <;> try exact absurd hleft Bool.false_ne_true
    cases right <;> try exact absurd hright Bool.false_ne_true
    exact beq_iff_eq.mpr ((eq_of_beq hleft).trans (eq_of_beq hright))
  all_goals exact same_of_constantKey? hkeys rfl

/-- A value that needs an entry has a key. -/
theorem isSome_constantKey? {value : Value} (hinline : value.inlineWord? = none) :
    value.constantKey?.isSome := by
  cases value <;> simp_all [inlineWord?, constantKey?]

end Value

/-! ### Settled values -/

namespace ConstantTable

variable {table larger : ConstantTable} {value other : Value} {word : Word}

/-- A position holds the first entry with the key of a value. -/
def Leads (table : ConstantTable) (value : Value) (position : Nat) : Prop :=
  ∃ entry : Value, table.entries[position]? = some entry ∧ entry.constantKey? = value.constantKey? ∧
    ∀ (earlier : Nat) (before : Value), earlier < position → table.entries[earlier]? = some before →
      before.constantKey? ≠ value.constantKey?

/-- The first entry with a key stays the first one. -/
theorem Leads.mono {position : Nat} (hleads : table.Leads value position) (hextends : table.Extends larger) :
    larger.Leads value position := by
  obtain ⟨entry, hentry, hkey, hfirst⟩ := hleads
  refine ⟨entry, hextends position entry hentry, hkey, fun earlier before hearlier hbefore ↦ ?_⟩
  have hinside : position < table.entries.size := by
    by_contra houtside
    rw [Array.getElem?_eq_none (Nat.le_of_not_lt houtside)] at hentry
    cases hentry
  have hold := Array.getElem?_eq_getElem (Nat.lt_trans hearlier hinside)
  have hsame := (hextends earlier _ hold).symm.trans hbefore
  exact hfirst earlier before hearlier (hold.trans hsame)

/-- A value with a key is registered at the first entry with its key. -/
theorem Leads.register_eq {position : Nat} (hleads : table.Leads value position)
    (hsome : value.constantKey?.isSome) : table.register value = (position, table) := by
  obtain ⟨entry, hentry, hkey, hfirst⟩ := hleads
  obtain ⟨own, hown⟩ := Option.isSome_iff_exists.mp hsome
  have hposition : table.positions[own]? = some position := by
    rw [table.positions_eq, Array.findIdx?_eq_some_iff_getElem]
    obtain ⟨hinside, rfl⟩ := Array.getElem?_eq_some_iff.mp hentry
    refine ⟨hinside, beq_iff_eq.mpr (hkey.trans hown), fun earlier hearlier hsame ↦ ?_⟩
    exact hfirst earlier _ hearlier (Array.getElem?_eq_getElem _) ((beq_iff_eq.mp hsame).trans hown.symm)
  unfold register
  dsimp only
  split
  case h_1 hnone => cases hown.symm.trans hnone
  case h_2 found hfound =>
    obtain rfl := Option.some.inj (hown.symm.trans hfound)
    split
    case h_1 there hthere => rw [Option.some.inj (hposition.symm.trans hthere)]
    case h_2 hnone => cases hposition.symm.trans hnone

/-- A value with a key leads to the entry at which it is registered. -/
theorem leads_register (hsome : value.constantKey?.isSome) :
    (table.register value).2.Leads value (table.register value).1 := by
  unfold register
  dsimp only
  split
  case h_1 hnone =>
    rw [hnone] at hsome
    cases hsome
  case h_2 own hown =>
    split
    case h_1 position hposition =>
      rw [table.positions_eq, Array.findIdx?_eq_some_iff_getElem] at hposition
      obtain ⟨hinside, hsame, hfirst⟩ := hposition
      refine ⟨_, Array.getElem?_eq_getElem hinside, (beq_iff_eq.mp hsame).trans hown.symm,
        fun earlier before hearlier hbefore hkey ↦ hfirst earlier hearlier (beq_iff_eq.mpr ?_)⟩
      obtain ⟨_, rfl⟩ := Array.getElem?_eq_some_iff.mp hbefore
      exact hkey.trans hown
    case h_2 hposition =>
      rw [table.positions_eq, Array.findIdx?_eq_none_iff] at hposition
      refine ⟨value, Array.getElem?_push_size, rfl, fun earlier before hearlier hbefore hkey ↦ ?_⟩
      rw [Array.getElem?_push_lt hearlier] at hbefore
      obtain rfl := Option.some.inj hbefore
      exact absurd (beq_iff_eq.mpr (hkey.trans hown)) (by simpa using hposition _ (Array.getElem_mem hearlier))

/-! ### Encoding a value again -/

/-- Encoding a value answers with a word and changes nothing. -/
def Settles (table : ConstantTable) (value : Value) (word : Word) : Prop :=
  table.encode value = (word, table)

/-- A value that needs no entry is settled. -/
theorem settles_of_inlineWord? (hword : value.inlineWord? = some word) : table.Settles value word := by
  unfold Settles encode
  rw [hword]

/-- A value that needs an entry is settled as soon as there is one. -/
theorem Leads.settles {position : Nat} (hleads : table.Leads value position)
    (hinline : value.inlineWord? = none) :
    table.Settles value (Word.constant (UInt32.ofNat position)) := by
  unfold Settles encode box
  rw [hinline, hleads.register_eq (Value.isSome_constantKey? hinline)]

/-- Encoding settles a value, for itself and for every value that is equal to it, however the table grows. -/
theorem settles_encode (hextends : (table.encode value).2.Extends larger) (hsame : other.same value = true) :
    larger.Settles other (table.encode value).1 := by
  have hequal := Value.inlineWord?_eq_of_same hsame
  cases hinline : value.inlineWord? with
  | some word =>
    have hencoded : table.encode value = (word, table) := settles_of_inlineWord? hinline
    rw [hencoded]
    exact settles_of_inlineWord? (hequal.trans hinline)
  | none =>
    have hencoded : table.encode value = table.box value := by
      unfold encode
      rw [hinline]
    rw [hencoded] at hextends ⊢
    have hleads : larger.Leads value (table.register value).1 :=
      (leads_register (Value.isSome_constantKey? hinline)).mono hextends
    obtain ⟨entry, hentry, hkey, hfirst⟩ := hleads
    rw [← Value.constantKey?_eq_of_same hsame] at hkey hfirst
    exact Leads.settles ⟨entry, hentry, hkey, hfirst⟩ (hequal.trans hinline)

end ConstantTable

/-! ### Memories -/

/-- The place of an object on the heap: where it starts, and how many fields it has. -/
structure Extent where
  start : Nat
  fieldCount : Nat

/-- The end of an object. -/
def Extent.stop (extent : Extent) : Nat :=
  extent.start + Heap.headerSize + extent.fieldCount

/-- A constant table and a heap, with the places of all objects. -/
structure Memory where
  table : ConstantTable
  heap : Heap
  objects : List Extent

namespace Memory

/-- A fresh table and an empty heap. -/
def initial (capacity : Nat) : Memory :=
  ⟨ConstantTable.empty, Heap.ofCapacity capacity, []⟩

/-- A value is registered, an object is made with a class word that refers to a class, or a field of an object
is written. -/
inductive Step : Memory → Memory → Prop where
  | register (memory : Memory) (value : Value) :
      Step memory { memory with table := (memory.table.register value).2 }
  | allocate {memory : Memory} {header reference : Word} {fields : List Word} {layout : Class} {heap : Heap}
      (hheader : memory.table.constant? header = some (.layout layout))
      (hallocated : Heap.allocate header fields memory.heap = .ok reference heap) :
      Step memory { memory with
        heap := heap
        objects := memory.objects ++ [⟨memory.heap.used, fields.length⟩] }
  | setField {memory : Memory} {index : UInt32} {fieldCount slot : Nat} (word : Word)
      (hobject : ⟨index.toNat, fieldCount⟩ ∈ memory.objects) (hslot : slot < fieldCount) :
      Step memory { memory with heap := memory.heap.setField index slot word }

/-- A memory comes to be another one. -/
def Becomes (memory later : Memory) : Prop :=
  Relation.ReflTransGen Step memory later

/-- A memory comes of a fresh table and an empty heap. -/
def Reached (memory : Memory) : Prop :=
  ∃ capacity : Nat, (initial capacity).Becomes memory

/-- What holds of a memory: undefined is the first entry, and the objects lie side by side among the used words
of a heap that words can number, with class words that refer to classes. -/
structure Sound (memory : Memory) : Prop where
  undefined : memory.table.entries[0]? = some .undefined
  capacity : memory.heap.capacity ≤ Word.indexLimit
  inside : ∀ object ∈ memory.objects, object.stop ≤ memory.heap.used
  apart : ∀ first ∈ memory.objects, ∀ second ∈ memory.objects,
    first = second ∨ first.stop ≤ second.start ∨ second.stop ≤ first.start
  headers : ∀ object ∈ memory.objects, ∃ layout : Class,
    memory.table.constant? (memory.heap.load object.start) = some (.layout layout)

/-- A later memory has all entries, and all objects with their class words. -/
structure Keeps (memory later : Memory) : Prop where
  entries : memory.table.Extends later.table
  objects : memory.objects ⊆ later.objects
  headers : ∀ object ∈ memory.objects, later.heap.load object.start = memory.heap.load object.start

variable {memory later : Memory}

/-- A fresh memory is sound. -/
theorem sound_initial (capacity : Nat) : (initial capacity).Sound :=
  ⟨rfl, Nat.min_le_right _ _, by rintro _ ⟨⟩, by rintro _ ⟨⟩,
    by rintro _ ⟨⟩⟩

theorem Keeps.refl (memory : Memory) : memory.Keeps memory :=
  ⟨.refl _, List.Subset.refl _, fun _ _ ↦ rfl⟩

theorem Keeps.trans {last : Memory} (hfirst : memory.Keeps later) (hsecond : later.Keeps last) :
    memory.Keeps last :=
  ⟨hfirst.entries.trans hsecond.entries, List.Subset.trans hfirst.objects hsecond.objects, fun object hobject ↦
    (hsecond.headers object (hfirst.objects hobject)).trans (hfirst.headers object hobject)⟩

/-- Registering a value keeps a memory sound. -/
theorem Sound.register (hsound : memory.Sound) (value : Value) :
    Sound { memory with table := (memory.table.register value).2 } ∧
      memory.Keeps { memory with table := (memory.table.register value).2 } := by
  have hextends := memory.table.register_extends value
  refine ⟨⟨hextends 0 _ hsound.undefined, hsound.capacity, hsound.inside, hsound.apart,
    fun object hobject ↦ ?_⟩, hextends, List.Subset.refl _, fun _ _ ↦ rfl⟩
  obtain ⟨layout, hlayout⟩ := hsound.headers object hobject
  exact ⟨layout, ConstantTable.constant?_mono hextends hlayout⟩

/-- Making an object keeps a memory sound. -/
theorem Sound.allocate (hsound : memory.Sound) {header reference : Word} {fields : List Word} {layout : Class}
    {heap : Heap} (hheader : memory.table.constant? header = some (.layout layout))
    (hallocated : Heap.allocate header fields memory.heap = .ok reference heap) :
    Sound { memory with
        heap := heap
        objects := memory.objects ++ [⟨memory.heap.used, fields.length⟩] } ∧
      memory.Keeps { memory with
        heap := heap
        objects := memory.objects ++ [⟨memory.heap.used, fields.length⟩] } := by
  obtain ⟨hcapacity, hused, hload⟩ := Heap.allocate_eq_ok hallocated
  have hfirst : heap.load memory.heap.used = header := by
    rw [hload, if_pos ⟨Nat.le_refl _, by simp [Heap.headerSize]⟩, Nat.sub_self]
    rfl
  have hkept : ∀ object ∈ memory.objects, heap.load object.start = memory.heap.load object.start := by
    intro object hobject
    have hstop := hsound.inside object hobject
    refine (hload object.start).trans (if_neg ?_)
    simp only [Extent.stop, Heap.headerSize] at hstop
    omega
  refine ⟨⟨hsound.undefined, hcapacity ▸ hsound.capacity, fun object hobject ↦ ?_,
    fun first hfirstMem second hsecondMem ↦ ?_, fun object hobject ↦ ?_⟩,
    .refl _, List.subset_append_left _ _, hkept⟩
  · dsimp only
    rcases List.mem_append.mp hobject with hold | hnew
    · have hstop := hsound.inside object hold
      omega
    · obtain rfl := List.mem_singleton.mp hnew
      simp only [Extent.stop]
      omega
  · rcases List.mem_append.mp hfirstMem with hold | hnew <;>
      rcases List.mem_append.mp hsecondMem with hother | hlast
    · exact hsound.apart first hold second hother
    · obtain rfl := List.mem_singleton.mp hlast
      exact Or.inr (Or.inl (hsound.inside first hold))
    · obtain rfl := List.mem_singleton.mp hnew
      exact Or.inr (Or.inr (hsound.inside second hother))
    · exact Or.inl ((List.mem_singleton.mp hnew).trans (List.mem_singleton.mp hlast).symm)
  · dsimp only
    rcases List.mem_append.mp hobject with hold | hnew
    · rw [hkept object hold]
      exact hsound.headers object hold
    · obtain rfl := List.mem_singleton.mp hnew
      exact ⟨layout, hfirst ▸ hheader⟩

/-- Writing a field of an object keeps a memory sound. -/
theorem Sound.setField (hsound : memory.Sound) {index : UInt32} {fieldCount slot : Nat} (word : Word)
    (hobject : ⟨index.toNat, fieldCount⟩ ∈ memory.objects) (hslot : slot < fieldCount) :
    Sound { memory with heap := memory.heap.setField index slot word } ∧
      memory.Keeps { memory with heap := memory.heap.setField index slot word } := by
  have hkept : ∀ object ∈ memory.objects,
      (memory.heap.setField index slot word).load object.start = memory.heap.load object.start := by
    intro object hother
    have hapart := hsound.apart object hother _ hobject
    refine (Heap.load_store _ _ _ _).trans (if_neg ?_)
    simp only [Extent.stop, Heap.headerSize] at hapart ⊢
    rcases hapart with rfl | hbefore | hbehind
    · dsimp only
      omega
    · omega
    · omega
  refine ⟨⟨hsound.undefined, hsound.capacity, hsound.inside, hsound.apart, fun object hother ↦ ?_⟩,
    .refl _, List.Subset.refl _, hkept⟩
  dsimp only
  rw [hkept object hother]
  exact hsound.headers object hother

/-- Whatever happens to a memory, it stays sound and keeps what it has. -/
theorem Sound.of_becomes (hsound : memory.Sound) (hbecomes : memory.Becomes later) :
    later.Sound ∧ memory.Keeps later := by
  induction hbecomes with
  | refl => exact ⟨hsound, .refl _⟩
  | tail _ hstep ih =>
    obtain ⟨hbetween, hkeeps⟩ := ih
    cases hstep with
    | register value => exact (hbetween.register value).imp_right hkeeps.trans
    | allocate hheader hallocated => exact (hbetween.allocate hheader hallocated).imp_right hkeeps.trans
    | setField word hobject hslot => exact (hbetween.setField word hobject hslot).imp_right hkeeps.trans

/-! ### Decoding -/

/-- A value can be encoded: an object has to be there, with the class that its class word refers to. -/
def Denotes (memory : Memory) : Value → Prop
  | .object reference =>
    (∃ fieldCount : Nat, ⟨reference.index.toNat, fieldCount⟩ ∈ memory.objects) ∧
      memory.table.constant? (memory.heap.load reference.index.toNat) = some (.layout reference.layout)
  | _ => True

/-- What can be encoded can be encoded later. -/
theorem Keeps.denotes (hkeeps : memory.Keeps later) {value : Value} (hdenotes : memory.Denotes value) :
    later.Denotes value := by
  cases value
  case object reference =>
    obtain ⟨⟨fieldCount, hobject⟩, hheader⟩ := hdenotes
    refine ⟨⟨fieldCount, hkeeps.objects hobject⟩, ?_⟩
    rw [hkeeps.headers _ hobject]
    exact ConstantTable.constant?_mono hkeeps.entries hheader
  all_goals trivial

end Memory

namespace Memory

variable {memory : Memory} {value : Value}

/-- The word of a value that needs no entry leads back to the value. -/
theorem Sound.decode_inline (hsound : memory.Sound) (hdenotes : memory.Denotes value) {word : Word}
    (hword : value.inlineWord? = some word) : decode memory.table memory.heap word = .ok value := by
  cases value
  case integer number =>
    obtain ⟨small, hkind, hsmall⟩ := Word.kind_of_ofInteger? hword
    unfold decode decodeWithin
    rw [hkind]
    dsimp only
    rw [hsmall]
  case object reference =>
    obtain ⟨⟨fieldCount, hobject⟩, hheader⟩ := hdenotes
    obtain rfl := Option.some.inj hword
    have hstop := hsound.inside _ hobject
    have hused := memory.heap.used_le_capacity
    have hcapacity := hsound.capacity
    simp only [Extent.stop, Heap.headerSize] at hstop
    have hclass : memory.heap.classWord reference.index = .ok (memory.heap.load reference.index.toNat) := by
      unfold Heap.classWord
      rw [if_neg (by simp only [Heap.headerSize]; omega)]
    unfold decode decodeWithin
    rw [Word.kind_reference _ (by omega)]
    dsimp only
    rw [hclass]
    dsimp only
    rw [decodeWithin_of_constant? hheader]
  all_goals cases hword

/-- The word of a value leads back to an equal value. It is the value itself, unless an equal one was among
the entries before. -/
theorem Sound.exists_decode {table : ConstantTable} (hsound : memory.Sound) (hdenotes : memory.Denotes value)
    (hextends : (table.encode value).2.Extends memory.table) (hsize : memory.table.size ≤ Word.indexLimit) :
    ∃ found : Value, decode memory.table memory.heap (table.encode value).1 = .ok found ∧
      found.same value = true ∧ (found = value ∨ found ∈ table.entries) := by
  cases hinline : value.inlineWord? with
  | some word =>
    have hencoded : table.encode value = (word, table) := ConstantTable.settles_of_inlineWord? hinline
    rw [hencoded]
    exact ⟨value, hsound.decode_inline hdenotes hinline, value.same_refl, Or.inl rfl⟩
  | none =>
    have hencoded : table.encode value = table.box value := by
      unfold ConstantTable.encode
      rw [hinline]
    rw [hencoded] at hextends ⊢
    obtain ⟨found, hboxed, hfound⟩ := table.exists_boxed_box value
    refine ⟨found, decodeWithin_of_constant? ((hboxed.mono hextends).constant?_eq hsize) _, ?_, ?_⟩
    · rcases hfound with rfl | ⟨-, hkey, hsome⟩
      · exact found.same_refl
      · exact Value.same_of_constantKey? hkey (hkey ▸ hsome)
    · exact hfound.imp_right And.left

/-- The memory once a value is encoded. -/
def encoded (memory : Memory) (value : Value) : Memory :=
  { memory with table := (memory.table.encode value).2 }

/-- Encoding a value registers it or changes nothing. -/
theorem becomes_encoded (memory : Memory) (value : Value) : memory.Becomes (memory.encoded value) := by
  unfold encoded ConstantTable.encode
  cases value.inlineWord? with
  | some word => exact .refl
  | none => exact .single (.register memory value)

/-- A value that was encoded stays with its word, whatever happens to the memory. The word leads back to an equal
value, which is the value itself if no entry before was equal to it only in identity. Encoding either of the
two again answers with the same word and changes nothing, and another value has that word exactly when it is
equal. All entries stay where they are, with undefined as the first one. -/
theorem Reached.encode_canonical (hreached : memory.Reached) (hdenotes : memory.Denotes value)
    {later : Memory} (hbecomes : (memory.encoded value).Becomes later)
    (hsize : later.table.size ≤ Word.indexLimit) :
    later.table.entries[0]? = some .undefined ∧ memory.table.Extends later.table ∧
      ∃ found : Value, decode later.table later.heap (memory.table.encode value).1 = .ok found ∧
        found.same value = true ∧
        ((∀ entry ∈ memory.table.entries, entry.same value = true → entry = value) → found = value) ∧
        later.table.encode value = ((memory.table.encode value).1, later.table) ∧
        later.table.encode found = ((memory.table.encode value).1, later.table) ∧
        ∀ other : Value, later.Denotes other → (later.table.encode other).2.size ≤ Word.indexLimit →
          ((later.table.encode other).1 = (memory.table.encode value).1 ↔ other.same value = true) := by
  obtain ⟨capacity, hcame⟩ := hreached
  obtain ⟨hsound, -⟩ := (sound_initial capacity).of_becomes hcame
  obtain ⟨hencodedSound, hencodedKeeps⟩ := hsound.of_becomes (memory.becomes_encoded value)
  obtain ⟨hlaterSound, hlaterKeeps⟩ := hencodedSound.of_becomes hbecomes
  have hextends : (memory.table.encode value).2.Extends later.table := hlaterKeeps.entries
  have hkeeps := hencodedKeeps.trans hlaterKeeps
  have hlaterDenotes := hkeeps.denotes hdenotes
  obtain ⟨found, hdecoded, hsame, hfound⟩ := hlaterSound.exists_decode hlaterDenotes hextends hsize
  refine ⟨hlaterSound.undefined, hkeeps.entries, found, hdecoded, hsame, fun honly ↦ ?_,
    ConstantTable.settles_encode hextends value.same_refl, ConstantTable.settles_encode hextends hsame,
    fun other hother hotherSize ↦ ⟨fun hwords ↦ ?_, fun hequal ↦ ?_⟩⟩
  · exact hfound.elim id fun hmem ↦ honly found hmem hsame
  · -- the two words lead to the same value once the other one is encoded, too
    obtain ⟨hlastSound, hlastKeeps⟩ := hlaterSound.of_becomes (later.becomes_encoded other)
    obtain ⟨first, hfirst, hfirstSame, -⟩ :=
      hlastSound.exists_decode (hlastKeeps.denotes hlaterDenotes) (hextends.trans hlastKeeps.entries) hotherSize
    obtain ⟨second, hsecond, hsecondSame, -⟩ :=
      hlastSound.exists_decode (hlastKeeps.denotes hother) (.refl _) hotherSize
    rw [hwords, hfirst] at hsecond
    obtain rfl := Except.ok.inj hsecond
    rw [Value.same_comm] at hsecondSame
    exact Value.same_trans hsecondSame hfirstSame
  · have hsettled : later.table.encode other = _ := ConstantTable.settles_encode hextends hequal
    rw [hsettled]

/-- In a fresh memory, a truth value gets the word of the second entry, and keeps it. -/
theorem encode_canonical_boolean :
    (initial 64).Reached ∧ (initial 64).Denotes (.boolean true) ∧
      ((initial 64).encoded (.boolean true)).Becomes ((initial 64).encoded (.boolean true)) ∧
      ((initial 64).encoded (.boolean true)).table.size ≤ Word.indexLimit ∧
      ∃ found : Value, decode ((initial 64).encoded (.boolean true)).table
          ((initial 64).encoded (.boolean true)).heap
          ((initial 64).table.encode (.boolean true)).1 = .ok found ∧
        found.same (.boolean true) = true := by
  have hreached : (initial 64).Reached := ⟨64, .refl⟩
  have hsize : ((initial 64).encoded (.boolean true)).table.size ≤ Word.indexLimit :=
    Nat.le_trans (ConstantTable.size_box_le ConstantTable.empty (.boolean true)) (by decide)
  have hdenotes : (initial 64).Denotes (.boolean true) := trivial
  obtain ⟨-, -, found, hdecoded, hsame, -⟩ := hreached.encode_canonical hdenotes .refl hsize
  exact ⟨hreached, hdenotes, .refl, hsize, found, hdecoded, hsame⟩

end Memory

end ScriptMachine
