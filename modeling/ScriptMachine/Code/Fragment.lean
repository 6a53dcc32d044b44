import ScriptMachine.Code.Buffer
import ScriptMachine.Code.Instruction

/-!
# Code without a position

A `Fragment` is a stretch of code as the compiler produces it, before it has a place in a code unit.
Each of its parts, an `Emission`, carries a source line. A jump says how many words it skips, and all
jumps go forward, so that a fragment means the same wherever it stands and fragments are joined by
putting one after the other. `Fragment.assemble` gives a fragment its place at the start of a code unit
and turns the words that a jump skips into the offset at which it arrives.
-/

set_option autoImplicit false
set_option relaxedAutoImplicit false

namespace ScriptMachine

/-- An instruction with its source line. The distance of a jump counts the words between the jump and
its target. -/
inductive Emission where
  | plain (instruction : Instruction) (line : UInt32)
  | skip (distance : Nat) (line : UInt32)
  | skipIfFalse (distance : Nat) (line : UInt32)
  deriving DecidableEq, Repr

namespace Emission

/-- The number of words of an emission. -/
def size : Emission → Nat
  | .plain instruction _ => instruction.size
  | .skip _ _ => 2
  | .skipIfFalse _ _ => 2

/-- The source line of an emission. -/
def line : Emission → UInt32
  | .plain _ line => line
  | .skip _ line => line
  | .skipIfFalse _ line => line

/-- The instruction of an emission at an offset. -/
def place (offset : Nat) : Emission → Instruction
  | .plain instruction _ => instruction
  | .skip distance _ => .goto (UInt32.ofNat (offset + 2 + distance))
  | .skipIfFalse distance _ => .jumpIfFalse (UInt32.ofNat (offset + 2 + distance))

end Emission

/-- A stretch of code without a position. -/
abbrev Fragment :=
  List Emission

namespace Fragment

/-- The number of words of a fragment. -/
def size : Fragment → Nat
  | [] => 0
  | emission :: rest => emission.size + size rest

/-- The size of joined fragments is the sum of their sizes. -/
@[simp] theorem size_append (first second : Fragment) :
    size (first ++ second) = size first + size second := by
  induction first with
  | nil => simp [size]
  | cons emission rest ih => simp [size, ih, Nat.add_assoc]

/-- Adds an emission to a buffer. -/
def write (buffer : CodeBuffer) (emission : Emission) : CodeBuffer :=
  let instruction := emission.place buffer.label
  let started := buffer.emit instruction.opcode.number emission.line
  match instruction.operand? with
  | some word => started.operand word
  | none => started

/-- The code unit of a fragment. -/
def assemble (fragment : Fragment) (parameterCount slotCount : Nat) : CodeUnit :=
  (fragment.foldl write CodeBuffer.empty).finish parameterCount slotCount

end Fragment

end ScriptMachine
