import ScriptMachine.Proofs.Holding

/-!
# Making objects

A heap knows nothing of classes: it makes objects of any words and writes words into their fields. `HeapOperation`
is what can be asked of it, and an `Allotment` is an object as it was made. `HeapOperation.Written` says what holds of a
heap after some operations: the objects lie one behind the other, every one has its class word and the mark, and every
field has the word that it was given last. One operation more keeps this (`Written.allocate`, `Written.setField`), and
so do all of them in a row (`Permitted.written`). So every object is found by its reference (`HeapOperation.allots`).
-/

set_option autoImplicit false
set_option relaxedAutoImplicit false

namespace ScriptMachine

/-! ### Objects as they were made -/

/-- An object as it was made: where it starts, its class word, and the words that its fields had at first. -/
structure Allotment where
  start : Nat
  header : Word
  fields : List Word

namespace Allotment

/-- The number of words of an object. -/
def size (object : Allotment) : Nat :=
  Heap.headerSize + object.fields.length

/-- The end of an object. -/
def stop (object : Allotment) : Nat :=
  object.start + object.size

/-- The start of an object as a number that a reference carries. -/
def index (object : Allotment) : UInt32 :=
  UInt32.ofNat object.start

/-- The reference to an object. -/
def reference (object : Allotment) : Word :=
  Word.reference object.index

/-- Two objects are the same one, or one of them ends before the other one starts. -/
def Apart (first second : Allotment) : Prop :=
  first = second ∨ first.stop ≤ second.start ∨ second.stop ≤ first.start

/-- The number of words that some objects take up. -/
def taken (objects : List Allotment) : Nat :=
  (objects.map size).sum

@[simp] theorem taken_concat (objects : List Allotment) (object : Allotment) :
    taken (objects ++ [object]) = taken objects + object.size := by
  simp [taken]

theorem start_lt_stop (object : Allotment) : object.start < object.stop := by
  simp only [stop, size, Heap.headerSize]
  omega

theorem start_succ_lt_stop (object : Allotment) : object.start + 1 < object.stop := by
  simp only [stop, size, Heap.headerSize]
  omega

theorem field_lt_stop (object : Allotment) {slot : Nat} {word : Word} (hword : object.fields[slot]? = some word) :
    object.start + Heap.headerSize + slot < object.stop := by
  have hslot := (List.getElem?_eq_some_iff.mp hword).1
  simp only [stop, size]
  omega

end Allotment

/-! ### Operations -/

/-- What can be asked of a heap: a new object, or another word in a field of an object. -/
inductive HeapOperation where
  | allocate (header : Word) (fields : List Word)
  | setField (index : UInt32) (slot : Nat) (word : Word)

namespace HeapOperation

/-- The heap after an operation. -/
def perform (heap : Heap) : HeapOperation → Heap
  | .allocate header fields =>
    match Heap.allocate header fields heap with
    | .ok _ grown => grown
    | .error _ same => same
  | .setField index slot word => heap.setField index slot word

/-- The objects after an operation: a new one comes behind the others if there are enough words left for it. -/
def allot (capacity : Nat) (objects : List Allotment) : HeapOperation → List Allotment
  | .allocate header fields =>
    if Allotment.taken objects + (Heap.headerSize + fields.length) ≤ capacity then
      objects ++ [⟨Allotment.taken objects, header, fields⟩]
    else objects
  | .setField _ _ _ => objects

/-- The objects that some operations make on an empty heap. -/
def objects (capacity : Nat) (operations : List HeapOperation) : List Allotment :=
  operations.foldl (allot capacity) []

/-- The word that an operation writes into a field of the object at a position. -/
def given? (start slot : Nat) : HeapOperation → Option Word
  | .allocate _ _ => none
  | .setField index position word => if index.toNat = start ∧ position = slot then some word else none

/-- The word that was written last into a field of the object at a position. -/
def lastGiven (start slot : Nat) (operations : List HeapOperation) : Option Word :=
  (operations.filterMap (given? start slot)).getLast?

/-- Operations that a heap of some capacity allows: objects are made of any words, and a word is written into a slot
below the number of fields of the object at its index. -/
inductive Permitted (capacity : Nat) : List HeapOperation → Prop where
  | nil : Permitted capacity []
  | allocate {operations : List HeapOperation} (hpermitted : Permitted capacity operations) (header : Word)
      (fields : List Word) : Permitted capacity (operations ++ [.allocate header fields])
  | setField {operations : List HeapOperation} (hpermitted : Permitted capacity operations) {object : Allotment}
      (hobject : object ∈ objects capacity operations) {index : UInt32} (hindex : object.start = index.toNat)
      {slot : Nat} (hslot : slot < object.fields.length) (word : Word) :
      Permitted capacity (operations ++ [.setField index slot word])

variable {capacity : Nat}

@[simp] theorem objects_concat (operations : List HeapOperation) (operation : HeapOperation) :
    objects capacity (operations ++ [operation]) = operation.allot capacity (objects capacity operations) := by
  simp [objects]

/-- The last one of some operations counts if it writes the field. -/
theorem lastGiven_concat (start slot : Nat) (operations : List HeapOperation) (operation : HeapOperation) :
    lastGiven start slot (operations ++ [operation]) =
      (given? start slot operation).or (lastGiven start slot operations) := by
  unfold lastGiven
  rw [List.filterMap_append]
  cases hgiven : given? start slot operation with
  | none => simp [hgiven]
  | some word => simp [hgiven]

/-- No field is written at a position where no object starts. -/
theorem Permitted.lastGiven_eq_none {operations : List HeapOperation} (hpermitted : Permitted capacity operations)
    {start : Nat} (hnone : ∀ object ∈ objects capacity operations, object.start ≠ start) (slot : Nat) :
    lastGiven start slot operations = none := by
  induction hpermitted with
  | nil => rfl
  | allocate _ header fields ih =>
    rw [lastGiven_concat]
    refine ih fun object hobject ↦ hnone object ?_
    rw [objects_concat, allot]
    split
    · exact List.mem_append_left _ hobject
    · exact hobject
  | @setField _ _ object hobject index hindex position _ word ih =>
    have hother : given? start slot (.setField index position word) = none := by
      refine if_neg fun hsame ↦ hnone object ?_ (hindex.trans hsame.1)
      rw [objects_concat]
      exact hobject
    rw [lastGiven_concat, hother]
    refine ih fun object hmem ↦ hnone object ?_
    rw [objects_concat]
    exact hmem

end HeapOperation

/-! ### Single operations -/

namespace Heap

/-- An object is made if there are enough words left for it. -/
theorem exists_allocate {heap : Heap} {fields : List Word}
    (hfits : heap.used + (headerSize + fields.length) ≤ heap.capacity) (header : Word) :
    ∃ grown : Heap, allocate header fields heap = .ok (Word.reference (UInt32.ofNat heap.used)) grown :=
  ⟨_, dif_pos hfits⟩

/-- An object for which there are not enough words left is refused, with the number of words that it needs and of
those that are left, and the heap stays as it was. -/
theorem allocate_eq_error {heap : Heap} {fields : List Word}
    (hfull : ¬ heap.used + (headerSize + fields.length) ≤ heap.capacity) (header : Word) :
    allocate header fields heap =
      .error (.heapExhausted (headerSize + fields.length) (heap.capacity - heap.used)) heap :=
  dif_neg hfull

end Heap

/-! ### Operations in a row -/

namespace HeapOperation

/-- The heap after some operations, with room for a requested number of words as far as references reach. -/
def heapAfter (requested : Nat) (operations : List HeapOperation) : Heap :=
  operations.foldl perform (Heap.ofCapacity requested)

/-- What the words of a heap are after some operations: the objects lie one behind the other up to the end of the used
words, every one begins with its class word and the mark, and a field has the word that it was given last. -/
structure Written (heap : Heap) (capacity : Nat) (operations : List HeapOperation) : Prop where
  capacity_eq : heap.capacity = capacity
  used_eq : heap.used = Allotment.taken (objects capacity operations)
  inside : ∀ object ∈ objects capacity operations, object.stop ≤ heap.used
  apart : (objects capacity operations).Pairwise fun first second ↦ first.stop ≤ second.start
  header : ∀ object ∈ objects capacity operations, heap.load object.start = object.header
  mark : ∀ object ∈ objects capacity operations, heap.load (object.start + 1) = Heap.freshMark
  field : ∀ object ∈ objects capacity operations, ∀ (slot : Nat) (word : Word), object.fields[slot]? = some word →
    heap.load (object.start + Heap.headerSize + slot) = (lastGiven object.start slot operations).getD word

variable {heap : Heap} {capacity : Nat} {operations : List HeapOperation}

/-- Nothing was made on an empty heap. -/
theorem written_nil (requested : Nat) : Written (Heap.ofCapacity requested) (min requested Word.indexLimit) [] where
  capacity_eq := rfl
  used_eq := rfl
  inside := List.forall_mem_nil _
  apart := .nil
  header := List.forall_mem_nil _
  mark := List.forall_mem_nil _
  field := List.forall_mem_nil _

/-- Asking for an object gives no word to a field. -/
theorem lastGiven_allocate (start slot : Nat) (operations : List HeapOperation) (header : Word) (fields : List Word) :
    lastGiven start slot (operations ++ [.allocate header fields]) = lastGiven start slot operations :=
  lastGiven_concat start slot operations _

/-- An object that finds no room changes nothing. -/
theorem Written.refuse (hwritten : Written heap capacity operations) {fields : List Word}
    (hfull : ¬ heap.used + (Heap.headerSize + fields.length) ≤ heap.capacity) (header : Word) :
    Written (perform heap (.allocate header fields)) capacity (operations ++ [.allocate header fields]) := by
  have hperform : perform heap (.allocate header fields) = heap := by
    rw [perform, Heap.allocate_eq_error hfull]
  have hobjects : objects capacity (operations ++ [.allocate header fields]) = objects capacity operations := by
    rw [hwritten.capacity_eq, hwritten.used_eq] at hfull
    rw [objects_concat, allot, if_neg hfull]
  rw [hperform]
  constructor <;> try rw [hobjects]
  case capacity_eq => exact hwritten.capacity_eq
  case used_eq => exact hwritten.used_eq
  case inside => exact hwritten.inside
  case apart => exact hwritten.apart
  case header => exact hwritten.header
  case mark => exact hwritten.mark
  case field =>
    intro object hobject slot word hword
    rw [lastGiven_allocate]
    exact hwritten.field object hobject slot word hword

/-- An object that finds room is written behind the others. -/
theorem Written.place (hwritten : Written heap capacity operations) (hpermitted : Permitted capacity operations)
    {fields : List Word} (hfits : heap.used + (Heap.headerSize + fields.length) ≤ heap.capacity) (header : Word) :
    Written (perform heap (.allocate header fields)) capacity (operations ++ [.allocate header fields]) := by
  obtain ⟨grown, hallocated⟩ := Heap.exists_allocate hfits header
  have hperform : perform heap (.allocate header fields) = grown := by
    rw [perform, hallocated]
  have hobjects : objects capacity (operations ++ [.allocate header fields]) =
      objects capacity operations ++ [⟨heap.used, header, fields⟩] := by
    rw [hwritten.capacity_eq, hwritten.used_eq] at hfits
    rw [objects_concat, allot, if_pos hfits, hwritten.used_eq]
  -- the words of the object are new, and those of the others lie before them
  obtain ⟨hcapacity, hused, hload⟩ := Heap.allocate_eq_ok hallocated
  have hold : ∀ object ∈ objects capacity operations, ∀ position : Nat, position < object.stop →
      grown.load position = heap.load position := by
    intro object hobject position hless
    have hstop := hwritten.inside object hobject
    rw [hload, if_neg (by omega)]
  have hnone : ∀ slot : Nat, lastGiven heap.used slot operations = none := by
    refine hpermitted.lastGiven_eq_none fun object hobject hstart ↦ ?_
    have hstop := hwritten.inside object hobject
    simp only [Allotment.stop, Allotment.size, Heap.headerSize] at hstop
    omega
  rw [hperform]
  constructor <;> try rw [hobjects]
  case capacity_eq => exact hcapacity.trans hwritten.capacity_eq
  case used_eq => rw [hused, Allotment.taken_concat, ← hwritten.used_eq, Allotment.size]
  case inside =>
    refine List.forall_mem_append.mpr ⟨fun object hobject ↦ ?_, ?_⟩
    · exact (hwritten.inside object hobject).trans (by omega)
    · simp [Allotment.stop, Allotment.size, hused]
  case apart =>
    refine List.pairwise_append.mpr ⟨hwritten.apart, List.pairwise_singleton _ _, fun object hobject ↦ ?_⟩
    simpa using hwritten.inside object hobject
  case header =>
    refine List.forall_mem_append.mpr ⟨fun object hobject ↦ ?_, ?_⟩
    · rw [hold object hobject _ object.start_lt_stop]
      exact hwritten.header object hobject
    · simp [hload, Heap.headerSize]
  case mark =>
    refine List.forall_mem_append.mpr ⟨fun object hobject ↦ ?_, ?_⟩
    · rw [hold object hobject _ object.start_succ_lt_stop]
      exact hwritten.mark object hobject
    · simp only [List.mem_singleton, forall_eq]
      rw [hload, if_pos (by simp only [Heap.headerSize]; omega), Nat.add_sub_cancel_left]
      rfl
  case field =>
    refine List.forall_mem_append.mpr ⟨fun object hobject slot word hword ↦ ?_, ?_⟩
    · rw [hold object hobject _ (object.field_lt_stop hword), lastGiven_allocate]
      exact hwritten.field object hobject slot word hword
    · simp only [List.mem_singleton, forall_eq]
      intro slot word hword
      obtain ⟨hslot, rfl⟩ := List.getElem?_eq_some_iff.mp hword
      rw [lastGiven_allocate, hnone, hload, if_pos (by omega)]
      simp [Heap.headerSize, Nat.add_assoc, Nat.add_comm 2 slot, hslot]

/-- Asking for an object writes it behind the others, or changes nothing. -/
theorem Written.allocate (hwritten : Written heap capacity operations)
    (hpermitted : Permitted capacity operations) (header : Word) (fields : List Word) :
    Written (perform heap (.allocate header fields)) capacity (operations ++ [.allocate header fields]) := by
  by_cases hfits : heap.used + (Heap.headerSize + fields.length) ≤ heap.capacity
  · exact hwritten.place hpermitted hfits header
  · exact hwritten.refuse hfits header

/-- Different objects of a heap lie apart. -/
theorem Written.apart_of_mem (hwritten : Written heap capacity operations) {first second : Allotment}
    (hfirst : first ∈ objects capacity operations) (hsecond : second ∈ objects capacity operations) :
    first.Apart second := by
  have hrefl : ∀ object ∈ objects capacity operations, object.Apart object := fun _ _ ↦ Or.inl rfl
  have hforwards : (objects capacity operations).Pairwise Allotment.Apart :=
    hwritten.apart.imp fun hbefore ↦ Or.inr (Or.inl hbefore)
  have hbackwards : (objects capacity operations).Pairwise (flip Allotment.Apart) :=
    hwritten.apart.imp fun hbefore ↦ Or.inr (Or.inr hbefore)
  exact List.Pairwise.forall_of_forall_of_flip hrefl hforwards hbackwards hfirst hsecond

/-- Writing a field of an object changes this field of this object and nothing else. -/
theorem Written.setField (hwritten : Written heap capacity operations) {object : Allotment}
    (hobject : object ∈ objects capacity operations) {index : UInt32} (hindex : object.start = index.toNat)
    {slot : Nat} (hslot : slot < object.fields.length) (word : Word) :
    Written (perform heap (.setField index slot word)) capacity (operations ++ [.setField index slot word]) := by
  have hload : ∀ position : Nat, (perform heap (.setField index slot word)).load position =
      if position = object.start + Heap.headerSize + slot then word else heap.load position := by
    intro position
    rw [hindex]
    exact Heap.load_store heap _ position word
  have hobjects : objects capacity (operations ++ [.setField index slot word]) = objects capacity operations :=
    objects_concat _ _
  -- the written word is none of the header of any object
  have hheader : ∀ other ∈ objects capacity operations, ∀ position : Nat, position < Heap.headerSize →
      (perform heap (.setField index slot word)).load (other.start + position) =
        heap.load (other.start + position) := by
    intro other hother position hposition
    have hapart := hwritten.apart_of_mem hother hobject
    rw [hload, if_neg]
    simp only [Allotment.Apart, Allotment.stop, Allotment.size, Heap.headerSize] at hapart hposition ⊢
    rcases hapart with rfl | hbefore | hbehind <;> omega
  constructor <;> try rw [hobjects]
  case capacity_eq => exact hwritten.capacity_eq
  case used_eq => exact hwritten.used_eq
  case inside => exact hwritten.inside
  case apart => exact hwritten.apart
  case header =>
    intro other hother
    rw [← hwritten.header other hother]
    exact hheader other hother 0 (by decide)
  case mark =>
    intro other hother
    rw [← hwritten.mark other hother]
    exact hheader other hother 1 (by decide)
  case field =>
    intro other hother position first hfirst
    have hapart := hwritten.apart_of_mem hother hobject
    have hinside := (List.getElem?_eq_some_iff.mp hfirst).1
    rw [lastGiven_concat, hload, given?, ← hindex]
    by_cases hsame : object.start = other.start ∧ slot = position
    · rw [if_pos hsame, if_pos (by omega)]
      rfl
    · rw [if_neg hsame, if_neg]
      · exact hwritten.field other hother position first hfirst
      · simp only [Allotment.Apart, Allotment.stop, Allotment.size, Heap.headerSize] at hapart ⊢
        rcases hapart with rfl | hbefore | hbehind <;> omega

/-- The words of a heap are what the operations made of them. -/
theorem Permitted.written (requested : Nat) (hpermitted : Permitted (min requested Word.indexLimit) operations) :
    Written (heapAfter requested operations) (min requested Word.indexLimit) operations := by
  induction hpermitted with
  | nil => exact written_nil requested
  | allocate hpermitted header fields ih =>
    rw [heapAfter, List.foldl_concat]
    exact ih.allocate hpermitted header fields
  | setField _ hobject hindex hslot word ih =>
    rw [heapAfter, List.foldl_concat]
    exact ih.setField hobject hindex hslot word

end HeapOperation

/-! ### What a heap answers -/

/-- A reference to a position that a word has room for is read back. -/
theorem Word.reference?_reference {index : UInt32} (hindex : index.toNat < indexLimit) :
    (reference index).reference? = some index := by
  rw [reference?, kind_reference index hindex]

namespace Heap

/-- A position on a heap that words can number is read back from a reference to it. -/
theorem index_of_lt {position : Nat} (hposition : position < Word.indexLimit) :
    (UInt32.ofNat position).toNat = position ∧
      (Word.reference (UInt32.ofNat position)).reference? = some (UInt32.ofNat position) := by
  have hindex : (UInt32.ofNat position).toNat = position := by
    rw [UInt32.toNat_ofNat']
    simp only [Word.indexLimit] at hposition
    omega
  exact ⟨hindex, Word.reference?_reference (hindex.symm ▸ hposition)⟩

/-- An object is found on a heap after some operations: its reference carries its start, and there the heap has its
class word, the mark, and in every field the word that was written last, or the first one where none was written. -/
structure Has (heap : Heap) (operations : List HeapOperation) (object : Allotment) : Prop where
  inside : object.stop ≤ heap.used
  index : object.index.toNat = object.start
  reference : object.reference.reference? = some object.index
  header : heap.classWord object.index = .ok object.header
  mark : heap.mark object.index = freshMark
  field : ∀ (slot : Nat) (word : Word), object.fields[slot]? = some word →
    heap.field object.index slot = (HeapOperation.lastGiven object.start slot operations).getD word

/-- What a heap answers when it is asked for an object. If there are enough words left, the answer is the reference to
an object at the end of the used words, and this position is read back from it. If not, the answer says how many words
are needed and how many are left, and the heap stays as it was. -/
def Answers (heap : Heap) (header : Word) (fields : List Word) : Prop :=
  let object : Allotment := ⟨heap.used, header, fields⟩
  if heap.used + (headerSize + fields.length) ≤ heap.capacity then
    ∃ grown : Heap, allocate header fields heap = .ok object.reference grown ∧
      object.reference.reference? = some object.index ∧ object.index.toNat = heap.used
  else
    allocate header fields heap =
      .error (.heapExhausted (headerSize + fields.length) (heap.capacity - heap.used)) heap

theorem answers (heap : Heap) (hcapacity : heap.capacity ≤ Word.indexLimit) (header : Word) (fields : List Word) :
    heap.Answers header fields := by
  unfold Answers
  dsimp only
  split_ifs with hfits
  · obtain ⟨grown, hallocated⟩ := exists_allocate hfits header
    have hposition : heap.used < Word.indexLimit := by
      simp only [headerSize] at hfits
      omega
    obtain ⟨hindex, hreference⟩ := index_of_lt hposition
    exact ⟨grown, hallocated, hreference, hindex⟩
  · exact allocate_eq_error hfits header

end Heap

namespace HeapOperation

variable {heap : Heap} {capacity : Nat} {operations : List HeapOperation}

/-- Every object is found on the heap. -/
theorem Written.has (hwritten : Written heap capacity operations) (hcapacity : capacity ≤ Word.indexLimit)
    {object : Allotment} (hobject : object ∈ objects capacity operations) : heap.Has operations object := by
  have hinside := hwritten.inside object hobject
  have hused := heap.used_le_capacity
  have hstart := object.start_lt_stop
  have hlimit : object.start < Word.indexLimit := by
    rw [hwritten.capacity_eq] at hused
    omega
  obtain ⟨hindex, hreference⟩ := Heap.index_of_lt hlimit
  refine ⟨hinside, hindex, hreference, ?_, ?_, fun slot word hword ↦ ?_⟩
  · rw [Heap.classWord, Allotment.index, hindex, hwritten.header object hobject, if_neg]
    simp only [Allotment.stop, Allotment.size] at hinside
    omega
  · rw [Heap.mark, Allotment.index, hindex]
    exact hwritten.mark object hobject
  · rw [Heap.field, Allotment.index, hindex]
    exact hwritten.field object hobject slot word hword

/-- A heap makes objects one behind the other, whatever words they consist of. After any permitted operations on an
empty heap with room for a requested number of words, as far as references reach, the objects lie apart and have
different references, every one is found with its class word, the mark and the words that its fields were given last,
and the next object is made exactly if there are enough words left for it. -/
theorem allots (requested : Nat) (hpermitted : Permitted (min requested Word.indexLimit) operations) :
    (heapAfter requested operations).capacity = min requested Word.indexLimit ∧
      (heapAfter requested operations).used =
        Allotment.taken (objects (min requested Word.indexLimit) operations) ∧
      (objects (min requested Word.indexLimit) operations).Pairwise
        (fun first second ↦ first.stop ≤ second.start ∧ first.reference ≠ second.reference) ∧
      (∀ object ∈ objects (min requested Word.indexLimit) operations,
        (heapAfter requested operations).Has operations object) ∧
      ∀ (header : Word) (fields : List Word), (heapAfter requested operations).Answers header fields := by
  have hwritten := hpermitted.written requested
  have hlimit : min requested Word.indexLimit ≤ Word.indexLimit := Nat.min_le_right _ _
  refine ⟨hwritten.capacity_eq, hwritten.used_eq, ?_, fun object hobject ↦ hwritten.has hlimit hobject,
    Heap.answers _ (hwritten.capacity_eq.trans_le hlimit)⟩
  refine hwritten.apart.imp_of_mem fun {first second} hfirst hsecond hapart ↦ ⟨hapart, fun hsame ↦ ?_⟩
  have hleft := hwritten.has hlimit hfirst
  have hright := hwritten.has hlimit hsecond
  have hindex : first.index = second.index := Option.some.inj <| by
    rw [← hleft.reference, ← hright.reference, hsame]
  have hstart : first.start = second.start := by
    rw [← hleft.index, ← hright.index, hindex]
  have hless := first.start_lt_stop
  omega

/-- Two objects are made, one for which there is no room is refused, and a field of the first one is written. -/
def refusing : List HeapOperation :=
  [.allocate ⟨7⟩ [⟨2⟩, ⟨4⟩], .allocate ⟨3⟩ [⟨6⟩], .allocate ⟨3⟩ [], .setField 0 1 ⟨1⟩]

theorem allots_refusing :
    Permitted (min 8 Word.indexLimit) refusing ∧ (heapAfter 8 refusing).used = 7 ∧
      (heapAfter 8 refusing).field 0 1 = ⟨1⟩ ∧ (heapAfter 8 refusing).field 4 0 = ⟨6⟩ := by
  have hmade : Permitted (min 8 Word.indexLimit) (refusing.take 3) :=
    ((Permitted.nil.allocate ⟨7⟩ [⟨2⟩, ⟨4⟩]).allocate ⟨3⟩ [⟨6⟩]).allocate ⟨3⟩ []
  have hpermitted : Permitted (min 8 Word.indexLimit) (refusing.take 3 ++ [.setField 0 1 ⟨1⟩]) :=
    hmade.setField (.head _) rfl (by decide) ⟨1⟩
  obtain ⟨-, hused, -, hhas, -⟩ := allots 8 hpermitted
  exact ⟨hpermitted, hused, (hhas _ (.head _)).field 1 ⟨4⟩ rfl, (hhas _ (.tail _ (.head _))).field 0 ⟨6⟩ rfl⟩

end HeapOperation

end ScriptMachine
