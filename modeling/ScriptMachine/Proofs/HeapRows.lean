import Mathlib.Tactic.SplitIfs
import ScriptMachine.Proofs.Effects

/-!
# Objects on the heap

The used words of a heap fall apart into objects, one behind the other: the word of a class, the mark, and one
word for each field (`Heap.Splits`). `HeapRow.at?` finds the object that starts at an index. Every field leads
somewhere (`Heap.Leads`): its word is no reference, or the start of an object whose header is all that has to be
read to find the class. There is only one way to split a heap (`HeapRow.eq_of_words`).
-/

set_option autoImplicit false
set_option relaxedAutoImplicit false

namespace ScriptMachine

/-! ### Rows of objects -/

namespace HeapRow

/-- The number of words of an object. -/
def size (row : HeapRow) : Nat :=
  Heap.headerSize + row.fields.length

/-- The object that starts at an index. -/
def at? : List HeapRow → Nat → Option HeapRow
  | [], _ => none
  | row :: rest, index =>
    if index = 0 then some row else if index < row.size then none else at? rest (index - row.size)

/-- The objects with the word of a field replaced in the one that starts at an index. -/
def assign : List HeapRow → (index slot : Nat) → Word → List HeapRow
  | [], _, _, _ => []
  | row :: rest, index, slot, word =>
    if index = 0 then ⟨row.header, row.fields.set slot word⟩ :: rest
    else if index < row.size then row :: rest
    else row :: assign rest (index - row.size) slot word

@[simp] theorem length_words (row : HeapRow) : row.words.length = row.size := by
  simp only [words, size, Heap.headerSize, List.length_cons]
  omega

theorem size_pos (row : HeapRow) : 0 < row.size := by
  simp only [size, Heap.headerSize]
  omega

/-- An object starts where the words of those before it end. -/
theorem at?_eq_some_iff (rows : List HeapRow) (index : Nat) (row : HeapRow) :
    at? rows index = some row ↔
      ∃ before after, rows = before ++ row :: after ∧ (before.flatMap words).length = index := by
  induction rows generalizing index with
  | nil => simp [at?]
  | cons first rest ih =>
    have hpositive := first.size_pos
    unfold at?
    constructor
    · intro hfound
      split_ifs at hfound with hzero hinside
      · obtain rfl := Option.some.inj hfound
        exact ⟨[], rest, rfl, hzero.symm⟩
      · obtain ⟨before, after, rfl, hlength⟩ := (ih _).mp hfound
        refine ⟨first :: before, after, rfl, ?_⟩
        rw [List.flatMap_cons, List.length_append, length_words, hlength]
        omega
    · rintro ⟨before, after, hrows, rfl⟩
      cases before with
      | nil =>
        obtain ⟨rfl, rfl⟩ := List.cons.inj hrows
        rfl
      | cons head before =>
        obtain ⟨rfl, rfl⟩ := List.cons.inj hrows
        rw [List.flatMap_cons, List.length_append, length_words, if_neg (by omega), if_neg (by omega),
          Nat.add_sub_cancel_left]
        exact (ih _).mpr ⟨before, after, rfl, rfl⟩

theorem mem_of_at? {rows : List HeapRow} {index : Nat} {row : HeapRow} (hrow : at? rows index = some row) :
    row ∈ rows := by
  obtain ⟨before, after, rfl, -⟩ := (at?_eq_some_iff _ _ _).mp hrow
  exact List.mem_append_right _ List.mem_cons_self

/-- An object ends before the words of all objects do. -/
theorem add_size_le_of_at? {rows : List HeapRow} {index : Nat} {row : HeapRow}
    (hrow : at? rows index = some row) : index + row.size ≤ (rows.flatMap words).length := by
  obtain ⟨before, after, rfl, rfl⟩ := (at?_eq_some_iff _ _ _).mp hrow
  simp only [List.flatMap_append, List.flatMap_cons, List.length_append, length_words]
  omega

/-- A new object starts behind the others, which stay where they are. -/
theorem at?_append (rows : List HeapRow) (added : HeapRow) (index : Nat) :
    at? (rows ++ [added]) index =
      if index = (rows.flatMap words).length then some added else at? rows index := by
  induction rows generalizing index with
  | nil =>
    simp only [List.nil_append, at?, List.flatMap_nil, List.length_nil]
    split_ifs <;> rfl
  | cons first rest ih =>
    have hpositive := first.size_pos
    rw [List.cons_append, at?, ih, at?, List.flatMap_cons, List.length_append, length_words]
    split_ifs <;> first | rfl | omega

/-- Only the object whose field is assigned changes, and it keeps its header. -/
theorem at?_assign (rows : List HeapRow) (index slot : Nat) (word : Word) (read : Nat) :
    at? (assign rows index slot word) read =
      if read = index then (at? rows index).map fun row ↦ ⟨row.header, row.fields.set slot word⟩
      else at? rows read := by
  induction rows generalizing index read with
  | nil => simp [assign, at?]
  | cons first rest ih =>
    have hpositive := first.size_pos
    have hsize : size ⟨first.header, first.fields.set slot word⟩ = first.size := by
      rw [size, size, List.length_set]
    unfold assign
    by_cases hzero : index = 0
    · subst hzero
      simp only [at?, hsize, if_true]
      split_ifs <;> rfl
    by_cases hinside : index < first.size
    · simp only [at?, hzero, hinside, if_true, if_false, Option.map_none]
      split_ifs <;> first | rfl | omega
    · simp only [at?, ih, hzero, hinside, if_false]
      split_ifs <;> first | rfl | omega

/-- An object is one from before, or the one whose field is assigned. -/
theorem mem_assign {rows : List HeapRow} {index slot : Nat} {word : Word} {row : HeapRow}
    (hrow : row ∈ assign rows index slot word) :
    row ∈ rows ∨ ∃ old ∈ rows, row = ⟨old.header, old.fields.set slot word⟩ := by
  induction rows generalizing index with
  | nil => cases hrow
  | cons first rest ih =>
    unfold assign at hrow
    split_ifs at hrow
    · rcases List.mem_cons.mp hrow with rfl | hrest
      · exact Or.inr ⟨first, List.mem_cons_self, rfl⟩
      · exact Or.inl (List.mem_cons_of_mem _ hrest)
    · exact Or.inl hrow
    · rcases List.mem_cons.mp hrow with rfl | hrest
      · exact Or.inl List.mem_cons_self
      · rcases ih hrest with hold | ⟨old, hold, hassigned⟩
        · exact Or.inl (List.mem_cons_of_mem _ hold)
        · exact Or.inr ⟨old, List.mem_cons_of_mem _ hold, hassigned⟩

/-- Assigning a field of an object replaces one word among the words of all objects. -/
theorem flatMap_assign {rows : List HeapRow} {index slot : Nat} {row : HeapRow}
    (hrow : at? rows index = some row) (hslot : slot < row.fields.length) (word : Word) :
    (assign rows index slot word).flatMap words =
      (rows.flatMap words).set (index + Heap.headerSize + slot) word := by
  induction rows generalizing index with
  | nil => cases hrow
  | cons first rest ih =>
    unfold at? at hrow
    unfold assign
    split_ifs at hrow ⊢ with hzero hinside
    · obtain rfl := Option.some.inj hrow
      subst hzero
      have hless : 0 + Heap.headerSize + slot < first.words.length := by
        rw [length_words, size]
        omega
      rw [List.flatMap_cons, List.flatMap_cons, List.set_append_left _ _ hless]
      congr 1
      simp [words, Heap.headerSize, Nat.add_comm 2 slot]
    · have hmore : first.words.length ≤ index + Heap.headerSize + slot := by
        rw [length_words]
        omega
      rw [List.flatMap_cons, List.flatMap_cons, ih hrow, List.set_append_right _ _ hmore, length_words]
      congr 2
      omega

/-! ### Headers -/

/-- Every object is still where it was, with the same header. -/
def Kept (rows later : List HeapRow) : Prop :=
  ∀ (index : Nat) (row : HeapRow), at? rows index = some row →
    ∃ kept : HeapRow, at? later index = some kept ∧ kept.header = row.header

theorem Kept.refl (rows : List HeapRow) : Kept rows rows :=
  fun _ row hrow ↦ ⟨row, hrow, rfl⟩

/-- Every object has the header of a class and as many fields as the class. -/
def Shaped (table : ConstantTable) (rows : List HeapRow) : Prop :=
  ∀ row ∈ rows, ∃ layout : Class, table.constant? row.header = some (.layout layout) ∧
    row.fields.length = layout.fieldCount

theorem Shaped.mono {table larger : ConstantTable} {rows : List HeapRow} (hextends : table.Extends larger)
    (hshaped : Shaped table rows) : Shaped larger rows := by
  intro row hrow
  obtain ⟨layout, hheader, hlength⟩ := hshaped row hrow
  exact ⟨layout, ConstantTable.constant?_mono hextends hheader, hlength⟩

/-- Words fall apart into objects in one way only, because the header of an object tells how many fields there
are. -/
theorem eq_of_words {table : ConstantTable} {first second : List HeapRow} (hfirst : Shaped table first)
    (hsecond : Shaped table second) (hwords : first.flatMap words = second.flatMap words) : first = second := by
  induction first generalizing second with
  | nil =>
    cases second with
    | nil => rfl
    | cons row rest => cases hwords
  | cons row rest ih =>
    cases second with
    | nil => cases hwords
    | cons other more =>
      simp only [List.flatMap_cons, words, List.cons_append, List.cons.injEq, true_and] at hwords
      obtain ⟨hheader, hfields⟩ := hwords
      obtain ⟨layout, hlayout, hlength⟩ := hfirst row List.mem_cons_self
      obtain ⟨found, hfound, hcount⟩ := hsecond other List.mem_cons_self
      rw [hheader, hfound] at hlayout
      obtain rfl := Value.layout.inj (Option.some.inj hlayout)
      obtain ⟨hsame, hrest⟩ := List.append_inj hfields (hlength.trans hcount.symm)
      obtain rfl := ih (fun inner hinner ↦ hfirst inner (List.mem_cons_of_mem _ hinner))
        (fun inner hinner ↦ hsecond inner (List.mem_cons_of_mem _ hinner)) hrest
      cases row
      cases other
      subst hheader hsame
      rfl

end HeapRow

/-! ### Words that lead somewhere -/

/-- More steps and more constants leave the value of a word as it is. -/
theorem decodeWithin_mono {table larger : ConstantTable} {heap : Heap} {steps more : Nat} {word : Word}
    {value : Value} (hextends : table.Extends larger) (hmore : steps ≤ more)
    (hvalue : decodeWithin table heap steps word = .ok value) :
    decodeWithin larger heap more word = .ok value := by
  induction steps generalizing more word value with
  | zero => cases hvalue
  | succ steps ih =>
    obtain ⟨more, rfl⟩ := Nat.exists_eq_succ_of_ne_zero (Nat.ne_zero_of_lt hmore)
    unfold decodeWithin at hvalue ⊢
    cases hkind : word.kind with
    | smallInteger number =>
      rw [hkind] at hvalue
      exact hvalue
    | constant index =>
      rw [hkind] at hvalue
      dsimp only at hvalue ⊢
      cases hentry : table.get? index with
      | none => rw [hentry] at hvalue; cases hvalue
      | some entry =>
        rw [hentry] at hvalue
        rw [show larger.get? index = some entry from hextends _ _ hentry]
        exact hvalue
    | reference index =>
      rw [hkind] at hvalue
      dsimp only at hvalue ⊢
      cases hheader : heap.classWord index with
      | error fault => rw [hheader] at hvalue; cases hvalue
      | ok header =>
        rw [hheader] at hvalue
        dsimp only at hvalue ⊢
        cases hfound : decodeWithin table heap steps header with
        | error fault => rw [hfound] at hvalue; cases hvalue
        | ok found =>
          rw [hfound] at hvalue
          rw [ih (Nat.le_of_succ_le_succ hmore) hfound]
          exact hvalue

/-- A reference is read as its index. -/
theorem Word.kind_of_reference? {word : Word} {index : UInt32} (hreference : word.reference? = some index) :
    word.kind = .reference index := by
  unfold Word.reference? at hreference
  split at hreference
  · exact Option.some.inj hreference ▸ ‹_›
  · cases hreference

namespace Heap

/-- A word can be decoded. If it is a reference, an object starts at its index, and no more than the header of
that object has to be read to find the class. -/
structure Leads (heap : Heap) (table : ConstantTable) (rows : List HeapRow) (word : Word) : Prop where
  decodes : ∃ value : Value, decode table heap word = .ok value
  object : ∀ index : UInt32, word.reference? = some index → ∃ (row : HeapRow) (layout : Class),
    HeapRow.at? rows index.toNat = some row ∧ table.constant? row.header = some (.layout layout) ∧
      decodeWithin table heap 2 word = .ok (.object ⟨index, layout⟩)

/-- The used words of a heap are those of some objects, each with the header of a class, the mark and the fields
of the class, and every field leads somewhere. -/
structure Splits (heap : Heap) (table : ConstantTable) (rows : List HeapRow) : Prop where
  contents : heap.contents = rows.flatMap HeapRow.words
  shaped : HeapRow.Shaped table rows
  fields : ∀ row ∈ rows, ∀ word ∈ row.fields, heap.Leads table rows word

variable {heap later : Heap} {table larger : ConstantTable} {rows laterRows : List HeapRow} {word : Word}
  {value : Value}

/-- A heap that is split in some way is split in no other way. -/
theorem Splits.congr (hsplits : heap.Splits table rows) (hshaped : HeapRow.Shaped table laterRows)
    (hcontents : heap.contents = laterRows.flatMap HeapRow.words) : rows = laterRows :=
  HeapRow.eq_of_words hsplits.shaped hshaped (hsplits.contents.symm.trans hcontents)

/-- The value of a reference is found through the header of the object. -/
theorem Leads.decode_eq (hleads : heap.Leads table rows word) {index : UInt32}
    (hindex : word.reference? = some index) : ∃ (row : HeapRow) (layout : Class),
      HeapRow.at? rows index.toNat = some row ∧ table.constant? row.header = some (.layout layout) ∧
        decode table heap word = .ok (.object ⟨index, layout⟩) := by
  obtain ⟨row, layout, hrow, hheader, hdecoded⟩ := hleads.object index hindex
  exact ⟨row, layout, hrow, hheader, decodeWithin_mono (.refl _) (Nat.le_add_left 2 heap.used) hdecoded⟩

/-- The word of a field stands in its slot. -/
theorem Splits.field (hsplits : heap.Splits table rows) {index : UInt32} {slot : Nat} {row : HeapRow}
    (hrow : HeapRow.at? rows index.toNat = some row) (hword : row.fields[slot]? = some word) :
    heap.field index slot = word := by
  obtain ⟨before, after, hrows, hlength⟩ := (HeapRow.at?_eq_some_iff _ _ _).mp hrow
  obtain ⟨hinside, hslot⟩ := List.getElem?_eq_some_iff.mp hword
  have hposition : index.toNat + headerSize + slot =
      (before.flatMap HeapRow.words ++ row.header :: freshMark :: row.fields.take slot).length := by
    rw [List.length_append, hlength, List.length_cons, List.length_cons,
      List.length_take_of_le (Nat.le_of_lt hinside), headerSize]
    omega
  rw [Heap.field, hposition]
  refine load_eq_of_contents _ (row.fields.drop (slot + 1) ++ after.flatMap HeapRow.words) ?_
  rw [hsplits.contents, hrows, List.flatMap_append, List.flatMap_cons, HeapRow.words, ← hslot]
  nth_rewrite 1 [← List.take_append_drop slot row.fields]
  rw [← List.getElem_cons_drop hinside]
  simp only [List.append_assoc, List.cons_append]

/-- A reference to the start of an object leads to it. -/
theorem Splits.leads_of_at? (hsplits : heap.Splits table rows) {index : UInt32}
    (hindex : word.reference? = some index) {row : HeapRow} (hrow : HeapRow.at? rows index.toNat = some row) :
    heap.Leads table rows word := by
  obtain ⟨layout, hheader, -⟩ := hsplits.shaped row (HeapRow.mem_of_at? hrow)
  have hinside := HeapRow.add_size_le_of_at? hrow
  rw [← hsplits.contents, length_contents, HeapRow.size] at hinside
  obtain ⟨before, after, hrows, hlength⟩ := (HeapRow.at?_eq_some_iff _ _ _).mp hrow
  have hload : heap.load index.toNat = row.header := by
    rw [← hlength]
    refine load_eq_of_contents _ (freshMark :: row.fields ++ after.flatMap HeapRow.words) ?_
    rw [hsplits.contents, hrows, List.flatMap_append, List.flatMap_cons]
    rfl
  have hclass : heap.classWord index = .ok row.header := by
    rw [classWord, if_neg (by omega), hload]
  have hdecoded : decodeWithin table heap 2 word = .ok (.object ⟨index, layout⟩) := by
    unfold decodeWithin
    rw [Word.kind_of_reference? hindex]
    dsimp only
    rw [hclass]
    dsimp only
    rw [decodeWithin_of_constant? hheader]
  refine ⟨⟨_, decodeWithin_mono (.refl _) (Nat.le_add_left 2 heap.used) hdecoded⟩, fun other hother ↦ ?_⟩
  obtain rfl := Option.some.inj (hindex.symm.trans hother)
  exact ⟨row, layout, hrow, hheader, hdecoded⟩

/-- Where objects keep their headers, a word leads where it did, and keeps its value. -/
theorem Leads.keep (hleads : heap.Leads table rows word) (hlater : later.Splits larger laterRows)
    (hextends : table.Extends larger) (hkept : HeapRow.Kept rows laterRows) :
    later.Leads larger laterRows word ∧
      ∀ value : Value, decode table heap word = .ok value → decode larger later word = .ok value := by
  cases hindex : word.reference? with
  | some index =>
    obtain ⟨row, layout, hrow, hheader, hdecoded⟩ := hleads.decode_eq hindex
    obtain ⟨kept, hsame, hheaders⟩ := hkept _ _ hrow
    have hagain := hlater.leads_of_at? hindex hsame
    refine ⟨hagain, fun value hvalue ↦ ?_⟩
    obtain ⟨found, other, hfound, hother, hdecodedAgain⟩ := hagain.decode_eq hindex
    obtain rfl := Option.some.inj (hsame.symm.trans hfound)
    have hclass := ConstantTable.constant?_mono hextends hheader
    rw [← hheaders, hother] at hclass
    obtain rfl := Value.layout.inj (Option.some.inj hclass)
    rw [hdecodedAgain, ← hdecoded, hvalue]
  | none =>
    -- a word that is no reference is read without the heap
    have hsame : ∀ value : Value, decode table heap word = .ok value → decode larger later word = .ok value := by
      intro value hvalue
      have hsteps : decodeWithin table later 1 word = .ok value := by
        unfold decode at hvalue
        unfold Word.reference? at hindex
        unfold decodeWithin at hvalue ⊢
        cases hkind : word.kind with
        | reference index =>
          rw [hkind] at hindex
          cases hindex
        | smallInteger number =>
          rw [hkind] at hvalue
          exact hvalue
        | constant index =>
          rw [hkind] at hvalue
          exact hvalue
      exact decodeWithin_mono hextends (Nat.le_add_left 1 _) hsteps
    obtain ⟨value, hvalue⟩ := hleads.decodes
    exact ⟨⟨⟨value, hsame value hvalue⟩, fun index hreference ↦ by cases hindex.symm.trans hreference⟩, hsame⟩

/-! ### Heaps that hold the objects of a store -/

namespace Holds

variable {store : Store}

/-- A word that holds a value leads somewhere. -/
theorem leads (hholds : heap.Holds table store) (hcontents : heap.contents = rows.flatMap HeapRow.words)
    (hrows : List.Forall₂ (fun row record ↦ HeapRow.Holds row table store.records record) rows store.records)
    (hvalue : table.value? store.records word = some value) : heap.Leads table rows word := by
  refine ⟨⟨value, hholds.decode hvalue⟩, fun index hindex ↦ ?_⟩
  have hkind := Word.kind_of_reference? hindex
  unfold ConstantTable.value? at hvalue
  rw [hkind] at hvalue
  obtain ⟨layout, hlayout, -⟩ := Option.map_eq_some_iff.mp hvalue
  obtain ⟨record, hrecord, rfl⟩ := Option.map_eq_some_iff.mp hlayout
  obtain ⟨before, after, hrecords, hlength⟩ := (Store.recordAt?_eq_some_iff _ _ _).mp hrecord
  obtain ⟨rowsBefore, row, rowsAfter, rfl, hbefore, hrow, -⟩ :=
    exists_split_of_forall₂ (hrecords ▸ hrows :
      List.Forall₂ (fun row record ↦ HeapRow.Holds row table store.records record) rows
        (before ++ record :: after))
  refine ⟨row, record.layout, ?_, hrow.header, ?_⟩
  · rw [HeapRow.at?_eq_some_iff]
    exact ⟨rowsBefore, rowsAfter, rfl, (length_flatMap_words hbefore).trans hlength.symm⟩
  · obtain ⟨header, hheader, hclass⟩ := hholds.classWord hrecord
    unfold decodeWithin
    rw [hkind]
    dsimp only
    rw [hheader]
    dsimp only
    rw [decodeWithin_of_constant? hclass]

/-- A heap that holds the objects of a store splits, and every word that holds a value leads somewhere. -/
theorem exists_splits (hholds : heap.Holds table store) (hshaped : Store.Shaped store.records) :
    ∃ rows : List HeapRow, heap.Splits table rows ∧
      ∀ (word : Word) (value : Value), table.value? store.records word = some value →
        heap.Leads table rows word := by
  obtain ⟨rows, hcontents, hrows⟩ := hholds.rows
  have hrecord : ∀ row ∈ rows, ∃ record ∈ store.records, HeapRow.Holds row table store.records record := by
    intro row hmem
    obtain ⟨before, after, hsplit⟩ := List.append_of_mem hmem
    have hflipped := hrows.flip
    rw [hsplit] at hflipped
    obtain ⟨recordsBefore, record, recordsAfter, hrecords, -, hholds, -⟩ := exists_split_of_forall₂ hflipped
    exact ⟨record, hrecords ▸ List.mem_append_right _ List.mem_cons_self, hholds⟩
  refine ⟨rows, ⟨hcontents, fun row hmem ↦ ?_, fun row hmem word hword ↦ ?_⟩,
    fun word value hvalue ↦ hholds.leads hcontents hrows hvalue⟩
  · obtain ⟨record, hstored, hrow⟩ := hrecord row hmem
    exact ⟨record.layout, hrow.header, hrow.fields.length_eq.trans (hshaped record hstored)⟩
  · obtain ⟨record, -, hrow⟩ := hrecord row hmem
    obtain ⟨value, hvalue⟩ := ConstantTable.HoldsAll.exists_value? hrow.fields hword
    exact hholds.leads hcontents hrows hvalue

end Holds

end Heap

end ScriptMachine
