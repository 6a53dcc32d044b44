import Mathlib.Data.List.Forall2
import ScriptMachine.Proofs.Constants
import ScriptMachine.Proofs.World

/-!
# Words that hold values

A word holds a value: a small integer in itself, an entry of the constant table, or an object of which
it is the number (`ConstantTable.value?`). Growth of the table and of the store leaves every word with
the value that it holds (`ConstantTable.value?_mono`). `Heap.Holds` says that the words of a heap hold
the records of a store: row by row, a header that holds the class, the mark, and words that hold the
fields.

`Heap.Holds.decode` is that decoding finds the value that a word holds, and `Heap.Holds.allocate`,
`Heap.Holds.field` and `Heap.Holds.setField` that making objects, reading fields and replacing them do
on the heap what they do in the store.
-/

set_option autoImplicit false
set_option relaxedAutoImplicit false

namespace ScriptMachine

/-! ### Single words -/

/-- The value that a word holds, given the constants and the objects. -/
def ConstantTable.value? (table : ConstantTable) (records : List Record) (word : Word) :
    Option Value :=
  match word.kind with
  | .smallInteger value => some (.integer (Int64.ofNat value.toNat))
  | .constant index => table.get? index
  | .reference index =>
    (Store.layoutAt? records index.toNat).map fun layout ↦ .object ⟨index, layout⟩

/-- An entry that a word refers to is the value that it holds. -/
theorem ConstantTable.value?_of_constant? {table : ConstantTable} {records : List Record}
    {word : Word} {value : Value} (hconstant : table.constant? word = some value) :
    table.value? records word = some value := by
  unfold ConstantTable.constant? at hconstant
  unfold ConstantTable.value?
  split at hconstant
  case h_1 index hkind =>
    rw [hkind]
    exact hconstant
  case h_2 => cases hconstant

/-- The word of undefined holds undefined. -/
theorem ConstantTable.value?_undefined {table : ConstantTable} (records : List Record)
    (hundefined : table.entries[0]? = some .undefined) :
    table.value? records Word.undefined = some .undefined := by
  have hkind : Word.undefined.kind = .constant 0 := by decide
  simp only [ConstantTable.value?, hkind]
  exact hundefined

/-- A word that holds a function refers to an entry. -/
theorem ConstantTable.constant?_of_value? {table : ConstantTable} {records : List Record} {word : Word}
    {callee : Function} (hvalue : table.value? records word = some (.function callee)) :
    table.constant? word = some (.function callee) := by
  unfold ConstantTable.value? at hvalue
  unfold ConstantTable.constant?
  split at hvalue
  case h_1 => cases hvalue
  case h_2 index hkind =>
    rw [hkind]
    exact hvalue
  case h_3 =>
    obtain ⟨_, -, hobject⟩ := Option.map_eq_some_iff.mp hvalue
    cases hobject

/-- A word keeps its value when constants and objects are added and when fields are replaced. -/
theorem ConstantTable.value?_mono {table larger : ConstantTable} {records later : List Record}
    (hextends : table.Extends larger) (hkeeps : Store.KeepsLayouts records later) {word : Word}
    {value : Value} (hvalue : table.value? records word = some value) :
    larger.value? later word = some value := by
  unfold ConstantTable.value? at hvalue ⊢
  split at hvalue
  case h_1 number hkind => exact hvalue
  case h_2 index hkind => exact hextends index.toNat value hvalue
  case h_3 index hkind =>
    obtain ⟨layout, hlayout, rfl⟩ := Option.map_eq_some_iff.mp hvalue
    rw [hkeeps index.toNat layout hlayout]
    rfl

/-- Several words hold several values, in order. -/
abbrev ConstantTable.HoldsAll (table : ConstantTable) (records : List Record) :
    List Word → List Value → Prop :=
  List.Forall₂ fun word value ↦ table.value? records word = some value

theorem ConstantTable.HoldsAll.mono {table larger : ConstantTable} {records later : List Record}
    (hextends : table.Extends larger) (hkeeps : Store.KeepsLayouts records later)
    {words : List Word} {values : List Value} (hholds : table.HoldsAll records words values) :
    larger.HoldsAll later words values :=
  List.Forall₂.imp (fun _ _ hvalue ↦ ConstantTable.value?_mono hextends hkeeps hvalue) hholds

/-- Of words that hold several values, each one holds a value. -/
theorem ConstantTable.HoldsAll.exists_value? {table : ConstantTable} {records : List Record}
    {words : List Word} {values : List Value} (hholds : table.HoldsAll records words values) {word : Word}
    (hmem : word ∈ words) : ∃ value : Value, table.value? records word = some value := by
  induction hholds with
  | nil => cases hmem
  | cons hvalue _ ih =>
    rcases List.mem_cons.mp hmem with rfl | hrest
    · exact ⟨_, hvalue⟩
    · exact ih hrest

/-- Copies of a word hold copies of its value. -/
theorem ConstantTable.HoldsAll.replicate {table : ConstantTable} {records : List Record} {word : Word}
    {value : Value} (hvalue : table.value? records word = some value) (count : Nat) :
    table.HoldsAll records (List.replicate count word) (List.replicate count value) := by
  induction count with
  | zero => exact List.Forall₂.nil
  | succ count ih => exact List.Forall₂.cons hvalue ih

/-- Of two rows that are related one by one, the left one falls apart where the right one does. -/
theorem exists_split_of_forall₂ {α β : Type} {related : α → β → Prop} {left : List α}
    {before after : List β} {middle : β}
    (hrelated : List.Forall₂ related left (before ++ middle :: after)) :
    ∃ leftBefore leftMiddle leftAfter, left = leftBefore ++ leftMiddle :: leftAfter ∧
      List.Forall₂ related leftBefore before ∧ related leftMiddle middle ∧
      List.Forall₂ related leftAfter after := by
  induction before generalizing left with
  | nil =>
    obtain ⟨head, tail, hhead, htail, rfl⟩ := List.forall₂_cons_right_iff.mp hrelated
    exact ⟨[], head, tail, rfl, List.Forall₂.nil, hhead, htail⟩
  | cons first before ih =>
    obtain ⟨head, tail, hhead, htail, rfl⟩ := List.forall₂_cons_right_iff.mp hrelated
    obtain ⟨leftBefore, leftMiddle, leftAfter, rfl, hbefore, hmiddle, hafter⟩ := ih htail
    exact ⟨head :: leftBefore, leftMiddle, leftAfter, rfl, List.Forall₂.cons hhead hbefore, hmiddle,
      hafter⟩

/-- Two rows that are related one by one stay so when related members replace theirs at one place. -/
theorem forall₂_set {α β : Type} {related : α → β → Prop} {left : List α} {right : List β}
    (hrelated : List.Forall₂ related left right) (position : Nat) {newLeft : α} {newRight : β}
    (hnew : related newLeft newRight) :
    List.Forall₂ related (left.set position newLeft) (right.set position newRight) := by
  induction hrelated generalizing position with
  | nil => exact List.Forall₂.nil
  | cons hhead htail ih =>
    cases position with
    | zero => exact List.Forall₂.cons hnew htail
    | succ position => exact List.Forall₂.cons hhead (ih position)

/-- Decoding a word of an entry answers with the entry. -/
theorem decodeWithin_of_constant? {table : ConstantTable} {heap : Heap} {word : Word} {value : Value}
    (hvalue : table.constant? word = some value) (steps : Nat) :
    decodeWithin table heap (steps + 1) word = .ok value := by
  unfold ConstantTable.constant? at hvalue
  unfold decodeWithin
  split at hvalue
  case h_1 index hkind =>
    rw [hkind]
    dsimp only
    rw [hvalue]
  case h_2 => cases hvalue

/-! ### Words on the heap -/

/-- The words of one object that a program chose: its header and its fields. -/
structure HeapRow where
  header : Word
  fields : List Word

/-- All words of an object. -/
def HeapRow.words (row : HeapRow) : List Word :=
  row.header :: Heap.freshMark :: row.fields

/-- A row of words holds an object. -/
structure HeapRow.Holds (row : HeapRow) (table : ConstantTable) (records : List Record)
    (record : Record) : Prop where
  header : table.constant? row.header = some (.layout record.layout)
  fields : table.HoldsAll records row.fields record.fields

namespace Heap

/-- The used words of a heap. -/
def contents (heap : Heap) : List Word :=
  (List.range heap.used).map heap.load

@[simp] theorem length_contents (heap : Heap) : heap.contents.length = heap.used := by
  simp [contents]

/-- The words of a heap hold the objects of a store. -/
structure Holds (heap : Heap) (table : ConstantTable) (store : Store) : Prop where
  capacity : heap.capacity = store.capacity
  capacity_le : heap.capacity ≤ Word.indexLimit
  rows : ∃ rows : List HeapRow, heap.contents = rows.flatMap HeapRow.words ∧
    List.Forall₂ (fun row record ↦ HeapRow.Holds row table store.records record) rows store.records

/-- A used word is read where it stands. -/
theorem load_eq_of_contents {heap : Heap} (before after : List Word) {word : Word}
    (hcontents : heap.contents = before ++ word :: after) : heap.load before.length = word := by
  have hlength := congrArg List.length hcontents
  simp only [length_contents, List.length_append, List.length_cons] at hlength
  have hword : heap.contents[before.length]? = some word := by simp [hcontents]
  simpa [contents, List.getElem?_range (show before.length < heap.used by omega)] using hword

/-- Rows take up as many words as the objects that they hold. -/
theorem length_flatMap_words {table : ConstantTable} {all records : List Record}
    {rows : List HeapRow}
    (hrows : List.Forall₂ (fun row record ↦ HeapRow.Holds row table all record) rows records) :
    (rows.flatMap HeapRow.words).length = Store.totalSize records := by
  induction hrows with
  | nil => rfl
  | cons hrow _ ih =>
    rw [List.flatMap_cons, List.length_append, ih, Store.totalSize_cons, HeapRow.words,
      List.length_cons, List.length_cons, hrow.fields.length_eq, Record.size, headerSize]
    omega

namespace Holds

variable {heap : Heap} {table : ConstantTable} {store : Store}

/-- The used words are those of the objects. -/
theorem used_eq (hholds : heap.Holds table store) : heap.used = Store.totalSize store.records := by
  obtain ⟨rows, hcontents, hrows⟩ := hholds.rows
  rw [← length_flatMap_words hrows, ← hcontents, length_contents]

/-- The number of an object fits into a word. -/
theorem lt_indexLimit_of_layoutAt? (hholds : heap.Holds table store) {index : Nat} {layout : Class}
    (hlayout : Store.layoutAt? store.records index = some layout) : index < Word.indexLimit := by
  obtain ⟨record, hrecord, -⟩ := Option.map_eq_some_iff.mp hlayout
  have hsize := Store.add_size_le_of_recordAt? hrecord
  have hused := heap.used_le_capacity
  have hcapacity := hholds.capacity_le
  rw [← hholds.used_eq, Record.size, headerSize] at hsize
  omega

/-- More constants leave a heap with the objects that it holds. -/
theorem mono (hholds : heap.Holds table store) {larger : ConstantTable}
    (hextends : table.Extends larger) : heap.Holds larger store := by
  obtain ⟨rows, hcontents, hrows⟩ := hholds.rows
  refine ⟨hholds.capacity, hholds.capacity_le, rows, hcontents, hrows.imp fun row record hrow ↦ ?_⟩
  exact ⟨ConstantTable.constant?_mono hextends hrow.header,
    hrow.fields.mono hextends (Store.KeepsLayouts.refl _)⟩

/-- An object lies where its number says: the words of the heap fall apart into those before it, its
own, and those after it. -/
theorem exists_row (hholds : heap.Holds table store) {index : Nat} {record : Record}
    (hrecord : Store.recordAt? store.records index = some record) :
    ∃ before row after, heap.contents = before ++ HeapRow.words row ++ after ∧
      before.length = index ∧ HeapRow.Holds row table store.records record := by
  obtain ⟨rows, hcontents, hrows⟩ := hholds.rows
  obtain ⟨before, after, hrecords, rfl⟩ := (Store.recordAt?_eq_some_iff _ _ _).mp hrecord
  obtain ⟨rowsBefore, row, rowsAfter, rfl, hbefore, hrow, -⟩ :=
    exists_split_of_forall₂ (hrecords ▸ hrows :
      List.Forall₂ (fun row record ↦ HeapRow.Holds row table store.records record) rows
        (before ++ record :: after))
  refine ⟨rowsBefore.flatMap HeapRow.words, row, rowsAfter.flatMap HeapRow.words, ?_,
    length_flatMap_words hbefore, hrow⟩
  rw [hcontents]
  simp

/-- The header of an object holds its class. -/
theorem classWord (hholds : heap.Holds table store) {index : UInt32} {record : Record}
    (hrecord : Store.recordAt? store.records index.toNat = some record) :
    ∃ header : Word, heap.classWord index = .ok header ∧
      table.constant? header = some (.layout record.layout) := by
  obtain ⟨before, row, after, hcontents, hindex, hrow⟩ := hholds.exists_row hrecord
  have hsize := Store.add_size_le_of_recordAt? hrecord
  rw [← hholds.used_eq, Record.size] at hsize
  have hload : heap.load index.toNat = row.header := by
    rw [← hindex]
    refine load_eq_of_contents before (freshMark :: row.fields ++ after) ?_
    simpa [HeapRow.words] using hcontents
  refine ⟨row.header, ?_, hrow.header⟩
  rw [Heap.classWord, if_neg (by omega), hload]

/-- The fields of an object lie among the used words. -/
theorem field_lt (hholds : heap.Holds table store) {index slot : Nat} {record : Record}
    (hrecord : Store.recordAt? store.records index = some record) (hslot : slot < record.fields.length) :
    index + headerSize + slot < heap.used := by
  have hsize := Store.add_size_le_of_recordAt? hrecord
  rw [← hholds.used_eq, Record.size] at hsize
  omega

/-- Decoding a word finds the value that it holds. -/
theorem decode (hholds : heap.Holds table store) {word : Word} {value : Value}
    (hvalue : table.value? store.records word = some value) :
    ScriptMachine.decode table heap word = .ok value := by
  unfold ConstantTable.value? at hvalue
  unfold ScriptMachine.decode decodeWithin
  cases hkind : word.kind with
  | smallInteger number =>
    rw [hkind] at hvalue
    exact congrArg Except.ok (Option.some.inj hvalue)
  | constant index =>
    rw [hkind] at hvalue
    dsimp only at hvalue ⊢
    rw [hvalue]
  | reference index =>
    rw [hkind] at hvalue
    obtain ⟨layout, hlayout, rfl⟩ := Option.map_eq_some_iff.mp hvalue
    obtain ⟨record, hrecord, rfl⟩ := Option.map_eq_some_iff.mp hlayout
    obtain ⟨header, hheader, hclass⟩ := hholds.classWord hrecord
    dsimp only
    rw [hheader]
    dsimp only
    rw [decodeWithin_of_constant? hclass]

/-- The word in a slot of an object holds the field in that slot. -/
theorem field (hholds : heap.Holds table store) {index : UInt32} {record : Record} {slot : Nat}
    {value : Value} (hrecord : Store.recordAt? store.records index.toNat = some record)
    (hslot : record.fields[slot]? = some value) :
    table.value? store.records (heap.field index slot) = some value := by
  obtain ⟨before, row, after, hcontents, hindex, hrow⟩ := hholds.exists_row hrecord
  obtain ⟨fieldsBefore, fieldsAfter, hfields, rfl⟩ :
      ∃ fieldsBefore fieldsAfter, record.fields = fieldsBefore ++ value :: fieldsAfter ∧
        fieldsBefore.length = slot := by
    obtain ⟨hinside, hget⟩ := List.getElem?_eq_some_iff.mp hslot
    refine ⟨record.fields.take slot, record.fields.drop (slot + 1), ?_, ?_⟩
    · rw [← hget, List.getElem_cons_drop, List.take_append_drop]
    · exact List.length_take_of_le (Nat.le_of_lt hinside)
  obtain ⟨wordsBefore, word, wordsAfter, hwords, hbefore, hword, -⟩ :=
    exists_split_of_forall₂ (hfields ▸ hrow.fields)
  have hload : heap.load (index.toNat + headerSize + fieldsBefore.length) = word := by
    have hlength : index.toNat + headerSize + fieldsBefore.length =
        (before ++ row.header :: freshMark :: wordsBefore).length := by
      simp [hindex, headerSize, hbefore.length_eq]
      omega
    rw [hlength]
    refine load_eq_of_contents _ (wordsAfter ++ after) ?_
    simpa [HeapRow.words, hwords] using hcontents
  rw [Heap.field, hload]
  exact hword

end Holds

/-! ### Changing the heap -/

/-- A stretch of stored words is read back, and every other word is as it was. -/
theorem getD_storeWords (words : Array Word) (position read : Nat) (stored : List Word) :
    (storeWords words position stored).getD read Word.zero =
      if position ≤ read ∧ read < position + stored.length then
        stored.getD (read - position) Word.zero
      else words.getD read Word.zero := by
  induction stored generalizing words position with
  | nil => rw [storeWords, List.length_nil, if_neg (by omega)]
  | cons word rest ih =>
    rw [storeWords, ih, getD_storeWord, List.length_cons]
    by_cases hfirst : read = position
    · subst hfirst
      rw [if_neg (by omega), if_pos rfl, if_pos ⟨Nat.le_refl _, by omega⟩, Nat.sub_self]
      rfl
    · by_cases hlater : position + 1 ≤ read
      · have hshift : read - position = (read - (position + 1)) + 1 := by omega
        rw [hshift, List.getD_cons_succ, if_neg hfirst]
        by_cases hinside : read < position + (rest.length + 1)
        · rw [if_pos ⟨hlater, by omega⟩, if_pos ⟨by omega, hinside⟩]
        · rw [if_neg (by omega), if_neg (by omega)]
      · rw [if_neg (by omega), if_neg hfirst, if_neg (by omega)]

/-- An object that is made comes behind the used words, and every other word stays what it is. -/
theorem allocate_eq_ok {heap grown : Heap} {header reference : Word} {fields : List Word}
    (hallocated : allocate header fields heap = .ok reference grown) :
    grown.capacity = heap.capacity ∧ grown.used = heap.used + (headerSize + fields.length) ∧
      ∀ position : Nat, grown.load position =
        if heap.used ≤ position ∧ position < heap.used + (headerSize + fields.length) then
          (header :: freshMark :: fields).getD (position - heap.used) Word.zero
        else heap.load position := by
  unfold allocate at hallocated
  dsimp only at hallocated
  split at hallocated
  case isFalse => cases hallocated
  case isTrue =>
    obtain ⟨-, rfl⟩ := EStateM.Result.ok.inj hallocated
    refine ⟨rfl, rfl, fun position ↦ (getD_storeWords heap.words heap.used position _).trans ?_⟩
    have hlength : (header :: freshMark :: fields).length = headerSize + fields.length := by
      simp [headerSize, Nat.add_comm 2]
    rw [hlength]
    rfl

/-- A heap is empty of other words after those that are added to it. -/
theorem contents_storeWords {heap grown : Heap} {added : List Word}
    (hused : grown.used = heap.used + added.length)
    (hwords : grown.words = storeWords heap.words heap.used added) :
    grown.contents = heap.contents ++ added := by
  refine List.ext_getElem (by simp [hused]) fun position hleft hright ↦ ?_
  have hload : grown.load position =
      if heap.used ≤ position ∧ position < heap.used + added.length then
        added.getD (position - heap.used) Word.zero
      else heap.load position := by
    unfold load
    rw [hwords, getD_storeWords]
  rw [List.getElem_append]
  simp only [contents, List.getElem_map, List.getElem_range, List.length_map, List.length_range]
  simp only [length_contents, List.length_append] at hleft hright
  rw [hload]
  split_ifs with hnew hold hold
  · omega
  · have hinside : position - heap.used < added.length := by omega
    simp [List.getD_eq_getElem?_getD, hinside]
  · rfl
  · omega

/-- Replacing a used word replaces it among the contents. -/
theorem contents_store (heap : Heap) (position : Nat) (word : Word) :
    (heap.store position word).contents = heap.contents.set position word := by
  refine List.ext_getElem (by simp [store]) fun read hleft hright ↦ ?_
  rw [List.getElem_set]
  simp only [contents, List.getElem_map, List.getElem_range, load_store]
  by_cases hsame : read = position
  · rw [if_pos hsame, if_pos hsame.symm]
  · rw [if_neg hsame, if_neg (Ne.symm hsame)]

namespace Holds

variable {heap : Heap} {table : ConstantTable} {store : Store}

/-- An object that fits is made on the heap as it is made in the store, and its reference holds it. -/
theorem allocate (hholds : heap.Holds table store) {header : Word} {layout : Class}
    {words : List Word} {values : List Value}
    (hheader : table.constant? header = some (.layout layout))
    (hwords : table.HoldsAll store.records words values)
    (hfits : Store.totalSize store.records + (headerSize + values.length) ≤ store.capacity) :
    ∃ grown : Heap,
      Heap.allocate header words heap =
        .ok (Word.reference (UInt32.ofNat (Store.totalSize store.records))) grown ∧
      grown.Holds table { store with records := store.records ++ [⟨layout, values⟩] } ∧
      table.value? (store.records ++ [⟨layout, values⟩])
          (Word.reference (UInt32.ofNat (Store.totalSize store.records))) =
        some (.object ⟨UInt32.ofNat (Store.totalSize store.records), layout⟩) := by
  have hlength : words.length = values.length := hwords.length_eq
  have hroom : heap.used + (headerSize + words.length) ≤ heap.capacity := by
    rw [hholds.used_eq, hholds.capacity, hlength]
    exact hfits
  let grown : Heap := ⟨heap.capacity, heap.used + (headerSize + words.length),
    storeWords heap.words heap.used (header :: freshMark :: words), hroom⟩
  have hmade : Heap.allocate header words heap = .ok (Word.reference (UInt32.ofNat heap.used)) grown := by
    unfold Heap.allocate
    exact dif_pos hroom
  have hkeeps := Store.keepsLayouts_append store.records [⟨layout, values⟩]
  have hcontents : grown.contents = heap.contents ++ HeapRow.words ⟨header, words⟩ :=
    contents_storeWords (by simp [grown, headerSize, HeapRow.words]; omega) rfl
  rw [hholds.used_eq] at hmade
  refine ⟨grown, hmade, ⟨hholds.capacity, hholds.capacity_le, ?_⟩, ?_⟩
  · obtain ⟨rows, hrowsContents, hrows⟩ := hholds.rows
    refine ⟨rows ++ [⟨header, words⟩], by simp [hcontents, hrowsContents], ?_⟩
    refine List.rel_append (hrows.imp fun row record hrow ↦ ?_) (List.Forall₂.cons ?_ List.Forall₂.nil)
    · exact ⟨hrow.header, hrow.fields.mono (ConstantTable.Extends.refl table) hkeeps⟩
    · exact ⟨hheader, hwords.mono (ConstantTable.Extends.refl table) hkeeps⟩
  · have hused : Store.totalSize store.records < Word.indexLimit := by
      have hcapacity := hholds.capacity_le
      rw [hholds.capacity] at hcapacity
      simp only [headerSize] at hfits
      omega
    have hindex : (UInt32.ofNat (Store.totalSize store.records)).toNat =
        Store.totalSize store.records := by
      rw [UInt32.toNat_ofNat']
      simp only [Word.indexLimit] at hused
      omega
    unfold ConstantTable.value?
    rw [Word.kind_reference _ (by rw [hindex]; exact hused)]
    dsimp only
    rw [hindex, Store.layoutAt?, Store.recordAt?_append_self]
    rfl

/-- An object that does not fit is refused, and the heap stays as it was. -/
theorem allocate_refused (hholds : heap.Holds table store) (header : Word) {words : List Word}
    {values : List Value} (hwords : table.HoldsAll store.records words values)
    (hfull : ¬ Store.totalSize store.records + (headerSize + values.length) ≤ store.capacity) :
    Heap.allocate header words heap =
      .error (.heapExhausted (headerSize + values.length)
        (store.capacity - Store.totalSize store.records)) heap := by
  have hlength : words.length = values.length := hwords.length_eq
  have hnone : ¬ heap.used + (headerSize + words.length) ≤ heap.capacity := by
    rw [hholds.used_eq, hholds.capacity, hlength]
    exact hfull
  calc Heap.allocate header words heap
      = .error (.heapExhausted (headerSize + words.length) (heap.capacity - heap.used)) heap := by
        unfold Heap.allocate
        exact dif_neg hnone
    _ = _ := by rw [hlength, hholds.capacity, hholds.used_eq]

/-- A field is replaced on the heap as it is replaced in the store. -/
theorem setField (hholds : heap.Holds table store) {index : UInt32} {record : Record} {slot : Nat}
    {word : Word} {value : Value}
    (hrecord : Store.recordAt? store.records index.toNat = some record)
    (hslot : slot < record.fields.length)
    (hvalue : table.value? store.records word = some value) :
    (heap.setField index slot word).Holds table
      { store with records := Store.replaceField store.records index.toNat slot value } := by
  have hkeeps := Store.keepsLayouts_replaceField store.records index.toNat slot value
  obtain ⟨before, after, hrecords, hindex⟩ := (Store.recordAt?_eq_some_iff _ _ _).mp hrecord
  obtain ⟨rows, hcontents, hrows⟩ := hholds.rows
  have hlater : List.Forall₂ (fun row record ↦ HeapRow.Holds row table
      (Store.replaceField store.records index.toNat slot value) record) rows
      (before ++ record :: after) := by
    rw [← hrecords]
    exact hrows.imp fun row record hrow ↦
      ⟨hrow.header, hrow.fields.mono (ConstantTable.Extends.refl table) hkeeps⟩
  obtain ⟨rowsBefore, row, rowsAfter, rfl, hbefore, hrow, hafter⟩ := exists_split_of_forall₂ hlater
  have hwidth : slot < row.fields.length := by
    rw [hrow.fields.length_eq]
    exact hslot
  refine ⟨hholds.capacity, hholds.capacity_le,
    rowsBefore ++ { row with fields := row.fields.set slot word } :: rowsAfter, ?_, ?_⟩
  · have hposition : index.toNat + headerSize + slot =
        (rowsBefore.flatMap HeapRow.words).length + (2 + slot) := by
      rw [length_flatMap_words hbefore, ← hindex, headerSize]
      omega
    rw [Heap.setField, contents_store, hcontents, hposition]
    simp only [List.flatMap_append, List.flatMap_cons, HeapRow.words]
    rw [List.set_append_right _ _ (Nat.le_add_right _ _), Nat.add_sub_cancel_left,
      List.set_append_left _ _ (by simp; omega)]
    simp [Nat.add_comm 2 slot]
  · have hstore : Store.replaceField store.records index.toNat slot value =
        before ++ { record with fields := record.fields.set slot value } :: after := by
      rw [hrecords, hindex, Store.replaceField_append]
    have hnew : table.value? (Store.replaceField store.records index.toNat slot value) word =
        some value := ConstantTable.value?_mono (ConstantTable.Extends.refl table) hkeeps hvalue
    change List.Forall₂ _ _ (Store.replaceField store.records index.toNat slot value)
    rw [hstore] at hbefore hrow hafter hnew ⊢
    exact List.rel_append hbefore
      (List.Forall₂.cons ⟨hrow.header, forall₂_set hrow.fields slot hnew⟩ hafter)

end Holds

end Heap

end ScriptMachine
