/-!
# Code units

A `CodeUnit` is the compiled body of one function: its instruction words, the source lines of its
instructions, and the sizes of its frame. The lines are kept as a compressed table with one
`LineEntry` wherever the line changes, in the order of the offsets, and `CodeUnit.lineAt` finds the
entry that covers an offset by halving the table.
-/

set_option autoImplicit false
set_option relaxedAutoImplicit false

namespace ScriptMachine

/-- The source line of the instructions from an offset on. -/
structure LineEntry where
  offset : UInt32
  line : UInt32
  deriving DecidableEq, Inhabited, Repr

/-- The compiled body of one function. The receiver counts among the parameters, and the slots are
those of the receiver, of the parameters and of every declared variable. -/
structure CodeUnit where
  code : Array UInt32
  lines : Array LineEntry
  parameterCount : Nat
  slotCount : Nat
  deriving DecidableEq, Repr

/-! ### The line table -/

/-- Whether the instructions from the offset of an entry on include a given offset. -/
def LineEntry.reaches (entry : LineEntry) (offset : Nat) : Bool :=
  entry.offset.toNat ≤ offset

/-- Narrows the `size` entries from `base` on to a single one by halving, keeping the upper half
whenever its first entry reaches the offset. As many halvings as entries are always enough. -/
def narrowLines (lines : Array LineEntry) (offset : Nat) : (halvings base size : Nat) → Nat
  | 0, base, _ => base
  | halvings + 1, base, size =>
    if size ≤ 1 then base
    else
      let middle := base + size / 2
      let next := if (lines.getD middle default).reaches offset then middle else base
      narrowLines lines offset halvings next (size - size / 2)

/-- The source line of the instruction that starts at an offset or covers it, and zero where the
table says nothing. -/
def CodeUnit.lineAt (unit : CodeUnit) (offset : Nat) : UInt32 :=
  let base := narrowLines unit.lines offset unit.lines.size 0 unit.lines.size
  match unit.lines[base]? with
  | none => 0
  | some entry =>
    if entry.reaches offset then entry.line
    else if base = 0 then 0
    else (unit.lines.getD (base - 1) default).line

end ScriptMachine
