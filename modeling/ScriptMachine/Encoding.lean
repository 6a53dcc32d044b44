import ScriptMachine.ConstantTable
import ScriptMachine.Heap

/-!
# Values in words

Running code keeps every value in one word. `Value.inlineWord?` is the word of a value that needs no
constant: a small integer or a reference to an object. `ConstantTable.box` gives any value an entry of
the constant table, and `ConstantTable.encode` chooses the cheapest of the two. `decode` reads a word
back, with the class of an object taken from its header on the heap.

A header is itself a word, so a malformed heap can hold headers that are references in turn. `decode`
follows them as far as a heap of that size can need, and refuses a chain that does not end before.
-/

set_option autoImplicit false
set_option relaxedAutoImplicit false

namespace ScriptMachine

/-! ### From values to words -/

/-- The word of a value that needs no entry of the constant table. -/
def Value.inlineWord? : Value → Option Word
  | .integer value => Word.ofInteger? value
  | .object reference => some (Word.reference reference.index)
  | _ => none

/-- The word of the entry of a value, which is made when there is none yet. -/
def ConstantTable.box (table : ConstantTable) (value : Value) : Word × ConstantTable :=
  let (position, table) := table.register value
  (Word.constant (UInt32.ofNat position), table)

/-- The word of a value: a small integer or a reference where that is possible, and otherwise an entry
of the constant table. -/
def ConstantTable.encode (table : ConstantTable) (value : Value) : Word × ConstantTable :=
  match value.inlineWord? with
  | some word => (word, table)
  | none => table.box value

/-! ### From words to values -/

/-- The fault of an object whose header does not lead to a class. -/
def notAClassHeader (found : String) : Fault :=
  .typeMismatch "class header" found

/-- The value of a word, following at most a given number of words one through the other. -/
def decodeWithin (table : ConstantTable) (heap : Heap) : Nat → Word → Except Fault Value
  | 0, _ => .error (notAClassHeader "object")
  | steps + 1, word =>
    match word.kind with
    | .smallInteger value => .ok (.integer (Int64.ofNat value.toNat))
    | .constant index =>
      match table.get? index with
      | some value => .ok value
      | none => .error (.invalidConstant index)
    | .reference index =>
      match heap.classWord index with
      | .error fault => .error fault
      | .ok header =>
        match decodeWithin table heap steps header with
        | .error fault => .error fault
        | .ok (.layout shape) => .ok (.object ⟨index, shape⟩)
        | .ok other => .error (notAClassHeader other.typeName)

/-- The value of a word. -/
def decode (table : ConstantTable) (heap : Heap) (word : Word) : Except Fault Value :=
  decodeWithin table heap (heap.used + 2) word

end ScriptMachine
