import ScriptMachine.Fault
import ScriptMachine.Word

/-!
# The heap

The `Heap` is a row of words in which objects lie one after the other and are never given back. An
object is its class word, a mark, and one word per field; `Heap.allocate` writes a new object after
the last one, so that a reference is the position at which its object starts. The words of the heap are
all zero until they are written; only those up to the highest one written are stored, and
`Heap.load` and `Heap.store` hide that. Field access checks nothing: whoever reads or writes a field
takes its slot from the class of the object.
-/

set_option autoImplicit false
set_option relaxedAutoImplicit false

namespace ScriptMachine

/-- A row of words with objects in the first `used` of them. -/
structure Heap where
  capacity : Nat
  used : Nat
  words : Array Word
  used_le_capacity : used ≤ capacity

namespace Heap

/-- The words in front of the fields of an object: the class word and the mark. -/
def headerSize : Nat :=
  2

/-- The mark of every object. -/
def freshMark : Word :=
  ⟨4294967294⟩

/-- An empty heap. A reference has no room for more than `Word.indexLimit` positions, so a larger
request is cut down to them. -/
def ofCapacity (requested : Nat) : Heap :=
  ⟨min requested Word.indexLimit, 0, #[], Nat.zero_le _⟩

/-! ### Single words -/

/-- The word at a position; a word that was never written is zero. -/
def load (heap : Heap) (position : Nat) : Word :=
  heap.words.getD position Word.zero

/-- The words of a row with one of them replaced; the row grows as far as needed. -/
def storeWord (words : Array Word) (position : Nat) (word : Word) : Array Word :=
  if position < words.size then words.setIfInBounds position word
  else (words ++ Array.replicate (position - words.size) Word.zero).push word

/-- The words of a row with several in a line replaced. -/
def storeWords (words : Array Word) (position : Nat) : List Word → Array Word
  | [] => words
  | word :: rest => storeWords (storeWord words position word) (position + 1) rest

/-- The heap with one of its words replaced. -/
def store (heap : Heap) (position : Nat) (word : Word) : Heap :=
  { heap with words := storeWord heap.words position word }

/-! ### Objects -/

/-- Puts a new object after the last one and answers with a reference to it. An object that does not fit
is refused, and the heap stays as it was. -/
def allocate (classWord : Word) (fields : List Word) : EStateM Fault Heap Word
  | ⟨capacity, used, words, hused⟩ =>
    if hfits : used + (headerSize + fields.length) ≤ capacity then
      .ok (Word.reference (UInt32.ofNat used))
        ⟨capacity, used + (headerSize + fields.length),
          storeWords words used (classWord :: freshMark :: fields), hfits⟩
    else
      .error (.heapExhausted (headerSize + fields.length) (capacity - used))
        ⟨capacity, used, words, hused⟩

/-- The class word of the object that starts at a position. There has to be room for a header between
the position and the end of the used words. -/
def classWord (heap : Heap) (index : UInt32) : Except Fault Word :=
  if index.toNat + headerSize > heap.used then .error (.invalidReference index)
  else .ok (heap.load index.toNat)

/-- The mark of the object that starts at a position. -/
def mark (heap : Heap) (index : UInt32) : Word :=
  heap.load (index.toNat + 1)

/-- The field of an object in a slot. -/
def field (heap : Heap) (index : UInt32) (slot : Nat) : Word :=
  heap.load (index.toNat + headerSize + slot)

/-- The heap with a field of an object replaced. -/
def setField (heap : Heap) (index : UInt32) (slot : Nat) (word : Word) : Heap :=
  heap.store (index.toNat + headerSize + slot) word

/-! ### Reading after writing -/

/-- A row of words read at a position other than those written is unchanged, and the written position
holds the written word. -/
theorem getD_storeWord (words : Array Word) (written read : Nat) (word : Word) :
    (storeWord words written word).getD read Word.zero =
      if read = written then word else words.getD read Word.zero := by
  unfold storeWord
  simp only [Array.getD_eq_getD_getElem?]
  split
  case isTrue hinside =>
    by_cases hsame : read = written
    · subst hsame
      simp [hinside]
    · simp [Ne.symm hsame, hsame]
  case isFalse houtside =>
    have hsize : words.size ≤ written := Nat.le_of_not_lt houtside
    rw [Array.getElem?_push, Array.getElem?_append]
    simp only [Array.size_append, Array.size_replicate, Nat.add_sub_cancel' hsize]
    by_cases hsame : read = written
    · simp [hsame]
    · simp only [hsame, if_false]
      by_cases hread : read < words.size
      · simp [hread]
      · simp only [hread, if_false, Array.getElem?_replicate]
        split <;> simp [Array.getElem?_eq_none (Nat.le_of_not_lt hread)]

/-- A word of the heap after a store is the stored word where it was stored, and the old one
elsewhere. -/
theorem load_store (heap : Heap) (written read : Nat) (word : Word) :
    (heap.store written word).load read = if read = written then word else heap.load read :=
  getD_storeWord heap.words written read word

end Heap

end ScriptMachine
