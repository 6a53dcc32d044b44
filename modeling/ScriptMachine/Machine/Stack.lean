import ScriptMachine.Word

/-!
# The operand stack

The `Stack` of a machine is a row of cells that grows as it is needed, up to a limit. `top` is the
number of cells in use and `base` the position of the running frame. A row that is too short doubles,
or grows to the size that is needed where that is more, but never past the limit
(`Stack.grownSize`). `Stack.hasRoom` asks whether the row is or can become long enough; the
operations that write past the top count on it.
-/

set_option autoImplicit false
set_option relaxedAutoImplicit false

namespace ScriptMachine

/-- A growable row of cells with a top and the base of the running frame. -/
structure Stack where
  cells : Array Word
  top : Nat
  base : Nat
  limit : Nat

namespace Stack

/-- An empty stack with some cells to start with. -/
def ofSizes (initial limit : Nat) : Stack :=
  ⟨Array.replicate (min initial limit) Word.zero, 0, 0, limit⟩

/-- The number of cells of a row after it has grown to hold at least `needed` cells. -/
def grownSize (size needed limit : Nat) : Nat :=
  min (max (size * 2) needed) limit

/-- Whether the stack has or can have this many cells. -/
def hasRoom (stack : Stack) (needed : Nat) : Bool :=
  needed ≤ stack.cells.size || needed ≤ stack.limit

/-- The stack with at least this many cells, as long as there is room for them. -/
def reserve (stack : Stack) (needed : Nat) : Stack :=
  if needed ≤ stack.cells.size then stack
  else
    let missing := grownSize stack.cells.size needed stack.limit - stack.cells.size
    { stack with cells := stack.cells ++ Array.replicate missing Word.zero }

/-- The word in a cell. -/
def cell (stack : Stack) (position : Nat) : Word :=
  stack.cells.getD position Word.zero

/-- The stack with the word in a cell replaced. -/
def setCell (stack : Stack) (position : Nat) (word : Word) : Stack :=
  { stack with cells := stack.cells.setIfInBounds position word }

/-- The stack with a word on top. -/
def push (stack : Stack) (word : Word) : Stack :=
  let stack := stack.reserve (stack.top + 1)
  { stack with cells := stack.cells.setIfInBounds stack.top word, top := stack.top + 1 }

/-- The words in `count` cells from a position on. -/
def slice (stack : Stack) (position count : Nat) : List Word :=
  (List.range count).map fun index ↦ stack.cell (position + index)

/-- The row of cells with `count` of them from a position on replaced by one word. -/
def fillCells (cells : Array Word) (position : Nat) (word : Word) : (count : Nat) → Array Word
  | 0 => cells
  | count + 1 => fillCells (cells.setIfInBounds position word) (position + 1) word count

end Stack

end ScriptMachine
