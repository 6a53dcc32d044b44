import ScriptMachine.Machine.Basic

/-!
# Looking at the heap

`Machine.objects` walks through the heap from its start and lists the objects it finds, each with its
class, its mark and the values of its fields. The walk ends at the end of the used words, or at a place
where no object can be read.
-/

set_option autoImplicit false
set_option relaxedAutoImplicit false

namespace ScriptMachine

/-- An object as it lies on the heap. -/
structure HeapObject where
  reference : ObjectRef
  mark : Word
  fields : List (Except Fault Value)

namespace Machine

/-- The fields of an object of a class, each read as a value. -/
def fieldValues (machine : Machine) (reference : ObjectRef) : List (Except Fault Value) :=
  (List.range reference.layout.fieldCount).map fun slot ↦
    machine.decode (machine.heap.field reference.index slot)

/-- The objects from a position on, at most a given number of them, and what was found in the place of an
object if the walk ended at such a place. -/
def objectsFrom (machine : Machine) : (count position : Nat) →
    List HeapObject × Option (Except Fault Value)
  | 0, _ => ([], none)
  | count + 1, position =>
    if position < machine.heap.used then
      match machine.decode (Word.reference (UInt32.ofNat position)) with
      | .ok (.object reference) =>
        let object : HeapObject :=
          ⟨reference, machine.heap.mark reference.index, machine.fieldValues reference⟩
        let (objects, obstacle) :=
          machine.objectsFrom count (position + Heap.headerSize + reference.layout.fieldCount)
        (object :: objects, obstacle)
      | found => ([], some found)
    else ([], none)

/-- The objects on the heap in order, and what ended the walk before its end. -/
def objects (machine : Machine) : List HeapObject × Option (Except Fault Value) :=
  machine.objectsFrom machine.heap.used 0

end Machine

end ScriptMachine
