import ScriptMachine.Code.Unit

/-!
# Writing code

A `CodeBuffer` takes the words of a code unit one after the other. `CodeBuffer.emit` starts an
instruction and records its source line, but only where the line differs from the one recorded last.
An operand that is not known yet is held open by `CodeBuffer.placeholder` and filled in by
`CodeBuffer.patch`.
-/

set_option autoImplicit false
set_option relaxedAutoImplicit false

namespace ScriptMachine

/-- The words and the line table of a code unit that is being written. -/
structure CodeBuffer where
  code : Array UInt32
  lines : Array LineEntry
  deriving DecidableEq, Inhabited, Repr

namespace CodeBuffer

/-- A buffer without words. -/
def empty : CodeBuffer :=
  ⟨#[], #[]⟩

/-- The offset of the next word. -/
def label (buffer : CodeBuffer) : Nat :=
  buffer.code.size

/-- The line table with the line of an instruction at an offset. -/
def recordLine (lines : Array LineEntry) (offset : Nat) (line : UInt32) : Array LineEntry :=
  if (lines.back?.map LineEntry.line) = some line then lines
  else lines.push ⟨UInt32.ofNat offset, line⟩

/-- Starts an instruction with a number and a source line. -/
def emit (buffer : CodeBuffer) (number line : UInt32) : CodeBuffer :=
  ⟨buffer.code.push number, recordLine buffer.lines buffer.code.size line⟩

/-- Adds an operand word. -/
def operand (buffer : CodeBuffer) (word : UInt32) : CodeBuffer :=
  ⟨buffer.code.push word, buffer.lines⟩

/-- Adds an operand word that is filled in later; its offset is the label of the buffer before. -/
def placeholder (buffer : CodeBuffer) : CodeBuffer :=
  buffer.operand 0

/-- Fills an operand word in with a label, which is cut to the 32 bits of a word. -/
def patch (buffer : CodeBuffer) (offset label : Nat) : CodeBuffer :=
  ⟨buffer.code.setIfInBounds offset (UInt32.ofNat label), buffer.lines⟩

/-- The finished code unit. -/
def finish (buffer : CodeBuffer) (parameterCount slotCount : Nat) : CodeUnit :=
  ⟨buffer.code, buffer.lines, parameterCount, slotCount⟩

end CodeBuffer

end ScriptMachine
