import Mathlib.Data.List.Basic
import ScriptMachine.Machine.Step

/-!
# The stack as a list

`Stack.contents` is the list of the words in use, bottom first; what the row of cells holds beyond the top
is not part of it, and neither is the way in which the row grows. Each operation on the stack is one on
this list: pushing appends (`Stack.contents_push`), cutting takes a prefix (`Stack.contents_cut`), and
building a frame over some arguments appends the remaining variables and the record
(`Stack.contents_enterFrame`). `Stack.Fits` is the invariant of the row itself: the words in use lie in it,
and it has not grown past the limit.
-/

set_option autoImplicit false
set_option relaxedAutoImplicit false

namespace ScriptMachine

namespace Stack

/-- The words in use, bottom first. -/
def contents (stack : Stack) : List Word :=
  stack.cells.toList.take stack.top

/-- The words in use lie in the row of cells, which has not grown past its limit. -/
structure Fits (stack : Stack) : Prop where
  top_le : stack.top ≤ stack.cells.size
  size_le : stack.cells.size ≤ stack.limit

/-- The top counts the words in use. -/
theorem Fits.length_contents {stack : Stack} (hfits : stack.Fits) :
    stack.contents.length = stack.top := by
  simp [contents, hfits.top_le]

/-- A fresh stack fits and is empty. -/
theorem fits_ofSizes (initial limit : Nat) : (ofSizes initial limit).Fits :=
  ⟨Nat.zero_le _, by simpa only [ofSizes, Array.size_replicate] using Nat.min_le_right _ _⟩

/-- The row of cells is the words in use and then cells that do not count. -/
theorem exists_toList_eq (stack : Stack) :
    ∃ unused : List Word, stack.cells.toList = stack.contents ++ unused :=
  ⟨stack.cells.toList.drop stack.top, (List.take_append_drop _ _).symm⟩

/-! ### Reading -/

/-- A word in use is read at its position. -/
theorem cell_of_getElem? {stack : Stack} {position : Nat} {word : Word}
    (hword : stack.contents[position]? = some word) : stack.cell position = word := by
  obtain ⟨unused, hcells⟩ := stack.exists_toList_eq
  have hinside : position < stack.contents.length := (List.getElem?_eq_some_iff.mp hword).1
  have hcell : stack.cells.toList[position]? = some word := by
    rw [hcells, List.getElem?_append_left hinside]
    exact hword
  rw [Array.getElem?_toList] at hcell
  rw [cell, Array.getD_eq_getD_getElem?, hcell]
  rfl

/-- A word in use is read where it stands. -/
theorem cell_eq {stack : Stack} (before after : List Word) {word : Word}
    (hcontents : stack.contents = before ++ word :: after) : stack.cell before.length = word :=
  cell_of_getElem? (by rw [hcontents]; simp)

/-- A stretch of words in use is read where it stands. -/
theorem slice_eq {stack : Stack} (before middle after : List Word)
    (hcontents : stack.contents = before ++ middle ++ after) :
    stack.slice before.length middle.length = middle := by
  refine List.ext_getElem (by simp [slice]) fun position _ hinside ↦ ?_
  simp only [slice, List.getElem_map, List.getElem_range]
  have hsplit : stack.contents =
      (before ++ middle.take position) ++ middle[position] :: (middle.drop (position + 1) ++ after) := by
    have hmiddle : middle = middle.take position ++ middle[position] :: middle.drop (position + 1) := by
      rw [List.getElem_cons_drop, List.take_append_drop]
    calc stack.contents = before ++ middle ++ after := hcontents
      _ = before ++ (middle.take position ++ middle[position] :: middle.drop (position + 1)) ++
            after := by rw [← hmiddle]
      _ = _ := by simp only [List.append_assoc, List.cons_append]
  have hread := cell_eq _ _ hsplit
  rwa [List.length_append, List.length_take_of_le (Nat.le_of_lt hinside)] at hread

/-! ### Cutting and replacing -/

/-- Moving the top down takes a prefix. -/
theorem contents_cut (stack : Stack) {top : Nat} (base : Nat) (hle : top ≤ stack.top) :
    ({ stack with top := top, base := base } : Stack).contents = stack.contents.take top := by
  simp [contents, List.take_take, Nat.min_eq_left hle]

theorem Fits.cut {stack : Stack} (hfits : stack.Fits) {top : Nat} (base : Nat)
    (hle : top ≤ stack.top) : ({ stack with top := top, base := base } : Stack).Fits :=
  ⟨Nat.le_trans hle hfits.top_le, hfits.size_le⟩

/-- Replacing a cell replaces it among the words in use. -/
theorem contents_setCell (stack : Stack) (position : Nat) (word : Word) :
    (stack.setCell position word).contents = stack.contents.set position word := by
  simp [contents, setCell, List.take_set]

theorem Fits.setCell {stack : Stack} (hfits : stack.Fits) (position : Nat) (word : Word) :
    (stack.setCell position word).Fits :=
  ⟨by simpa [Stack.setCell] using hfits.top_le, by simpa [Stack.setCell] using hfits.size_le⟩

/-! ### Growing -/

/-- There is room for as many cells as the limit allows. -/
theorem Fits.le_limit_of_hasRoom {stack : Stack} (hfits : stack.Fits) {needed : Nat}
    (hroom : stack.hasRoom needed = true) : needed ≤ stack.limit := by
  have hsize := hfits.size_le
  simp only [hasRoom, Bool.or_eq_true, decide_eq_true_eq] at hroom
  omega

/-- Where there is no room, more cells are needed than the limit allows. -/
theorem limit_lt_of_not_hasRoom {stack : Stack} {needed : Nat} (hfull : ¬ stack.hasRoom needed = true) :
    stack.limit < needed := by
  simp only [hasRoom, Bool.or_eq_true, decide_eq_true_eq, not_or] at hfull
  omega

/-- Growing keeps the cells, has room for those that are needed, and stays within the limit. -/
theorem exists_reserve_eq {stack : Stack} (hfits : stack.Fits) {needed : Nat}
    (hroom : stack.hasRoom needed = true) :
    ∃ missing : Nat, stack.reserve needed =
        { stack with cells := stack.cells ++ Array.replicate missing Word.zero } ∧
      needed ≤ stack.cells.size + missing ∧ stack.cells.size + missing ≤ stack.limit := by
  have hsize := hfits.size_le
  have hlimit := hfits.le_limit_of_hasRoom hroom
  unfold reserve
  split
  case isTrue hinside => exact ⟨0, by simp, by omega, by omega⟩
  case isFalse houtside =>
    refine ⟨grownSize stack.cells.size needed stack.limit - stack.cells.size, rfl, ?_, ?_⟩
    · simp only [grownSize]
      omega
    · simp only [grownSize]
      omega

/-- Pushing appends the word. -/
theorem contents_push {stack : Stack} (hfits : stack.Fits)
    (hroom : stack.hasRoom (stack.top + 1) = true) (word : Word) :
    (stack.push word).contents = stack.contents ++ [word] ∧ (stack.push word).Fits ∧
      (stack.push word).base = stack.base ∧ (stack.push word).limit = stack.limit := by
  obtain ⟨missing, hreserve, hneeded, hlimit⟩ := exists_reserve_eq hfits hroom
  have htop := hfits.top_le
  unfold push
  rw [hreserve]
  refine ⟨?_, ⟨by simpa using hneeded, by simpa using hlimit⟩, rfl, rfl⟩
  have hinside : stack.top < (stack.cells.toList ++ List.replicate missing Word.zero).length := by
    simp
    omega
  simp only [contents, Array.toList_setIfInBounds, Array.toList_append, Array.toList_replicate]
  rw [List.take_add_one, List.take_set_of_le (Nat.le_refl _), List.getElem?_set_self hinside,
    List.take_append_of_le_length (by simpa using htop)]
  rfl

/-! ### Building a frame -/

/-- Filling a stretch of cells replaces the words that stand there. -/
theorem toList_fillCells (cells : Array Word) (word : Word) {before filled after : List Word}
    (hcells : cells.toList = before ++ filled ++ after) :
    (fillCells cells before.length word filled.length).toList =
      before ++ List.replicate filled.length word ++ after := by
  induction filled generalizing cells before with
  | nil => simpa [fillCells] using hcells
  | cons first rest ih =>
    have hset : (cells.setIfInBounds before.length word).toList = (before ++ [word]) ++ rest ++ after := by
      rw [Array.toList_setIfInBounds, hcells]
      simp
    have hrest := ih _ hset
    rw [List.length_append, List.length_singleton] at hrest
    rw [List.length_cons, fillCells, hrest]
    simp [List.replicate_succ]

/-- Three words in a line are replaced one after the other. -/
theorem set_three (before after : List Word) (first second third newFirst newSecond newThird : Word) :
    (((before ++ first :: second :: third :: after).set before.length newFirst).set
        (before.length + 1) newSecond).set (before.length + 2) newThird =
      before ++ newFirst :: newSecond :: newThird :: after := by
  induction before with
  | nil => rfl
  | cons head before ih =>
    simp only [List.cons_append, List.length_cons, List.set_cons_succ, Nat.add_right_comm _ 1]
    rw [ih]

/-- A list that is long enough has three words behind a stretch of a given length. -/
theorem exists_split_three {words : List Word} {count : Nat} (henough : count + 3 ≤ words.length) :
    ∃ (before : List Word) (first second third : Word) (after : List Word),
      words = before ++ first :: second :: third :: after ∧ before.length = count := by
  have hlength : (words.drop count).length = words.length - count := List.length_drop
  rcases hdrop : words.drop count with _ | ⟨first, _ | ⟨second, _ | ⟨third, after⟩⟩⟩
  case cons.cons.cons =>
    refine ⟨words.take count, first, second, third, after, ?_, List.length_take_of_le (by omega)⟩
    rw [← hdrop, List.take_append_drop]
  all_goals
    rw [hdrop] at hlength
    simp only [List.length_nil, List.length_cons] at hlength
    omega

/-- A frame over some arguments adds the variables that are not parameters, all undefined, and the
record of the caller. -/
theorem contents_enterFrame {stack : Stack} (hfits : stack.Fits) {unit : CodeUnit}
    {lower arguments : List Word} (returnOffset caller : Word)
    (hcontents : stack.contents = lower ++ arguments)
    (harguments : arguments.length = unit.parameterCount)
    (hslots : unit.parameterCount ≤ unit.slotCount)
    (hroom : stack.hasRoom (lower.length + unit.slotCount + recordSize) = true) :
    (stack.enterFrame lower.length unit returnOffset caller).contents =
        lower ++ (arguments ++
          List.replicate (unit.slotCount - unit.parameterCount) Word.undefined) ++
          [⟨UInt32.ofNat stack.base⟩, returnOffset, caller] ∧
      (stack.enterFrame lower.length unit returnOffset caller).Fits ∧
      (stack.enterFrame lower.length unit returnOffset caller).base = lower.length ∧
      (stack.enterFrame lower.length unit returnOffset caller).limit = stack.limit := by
  obtain ⟨missing, hreserve, hneeded, hlimit⟩ := exists_reserve_eq hfits hroom
  obtain ⟨unused, hcells⟩ := stack.exists_toList_eq
  have hsize : stack.cells.size = lower.length + unit.parameterCount + unused.length := by
    rw [← Array.length_toList, hcells, hcontents]
    simp [harguments]
    omega
  -- the unused cells are those of the other variables, the three of the record, and a rest
  have henough : unit.slotCount - unit.parameterCount + 3 ≤ (unused ++ List.replicate missing Word.zero).length := by
    rw [List.length_append, List.length_replicate]
    simp only [recordSize] at hneeded
    omega
  obtain ⟨filled, first, second, third, rest, hunused, hfilled⟩ := exists_split_three henough
  have hgrown : (stack.cells ++ Array.replicate missing Word.zero).toList =
      (lower ++ arguments) ++ filled ++ first :: second :: third :: rest := by
    rw [Array.toList_append, Array.toList_replicate, hcells, hcontents, List.append_assoc _ unused,
      hunused]
    simp
  have hrecord : lower.length + unit.slotCount = (lower ++ arguments ++ filled).length := by
    simp [harguments, hfilled]
    omega
  have hwritten : ((((stack.cells ++ Array.replicate missing Word.zero).setIfInBounds
        (lower.length + unit.slotCount) ⟨UInt32.ofNat stack.base⟩).setIfInBounds
        (lower.length + unit.slotCount + 1) returnOffset).setIfInBounds
        (lower.length + unit.slotCount + 2) caller).toList =
      (lower ++ arguments) ++ filled ++
        (⟨UInt32.ofNat stack.base⟩ :: returnOffset :: caller :: rest) := by
    simp only [Array.toList_setIfInBounds, hgrown, hrecord]
    exact set_three _ _ _ _ _ _ _ _
  have hparameters : lower.length + unit.parameterCount = (lower ++ arguments).length := by
    simp [harguments]
  have hresult := toList_fillCells _ Word.undefined hwritten
  unfold enterFrame
  dsimp only
  rw [hreserve]
  dsimp only
  rw [← hfilled, hparameters]
  refine ⟨?_, ⟨?_, ?_⟩, rfl, rfl⟩
  · rw [contents, hresult]
    have hrow : (lower ++ arguments ++ List.replicate filled.length Word.undefined ++
        (⟨UInt32.ofNat stack.base⟩ :: returnOffset :: caller :: rest)) =
        (lower ++ (arguments ++ List.replicate filled.length Word.undefined) ++
          [⟨UInt32.ofNat stack.base⟩, returnOffset, caller]) ++ rest := by simp
    rw [hrow, List.take_left' (by simp [harguments, hfilled, recordSize]; omega)]
  · rw [← Array.length_toList, hresult]
    simp [harguments, hfilled, recordSize]
    omega
  · rw [← Array.length_toList, hresult]
    have hlength := congrArg List.length hgrown
    simp only [Array.length_toList, Array.size_append, Array.size_replicate, List.length_append,
      List.length_cons] at hlength
    simp only [List.length_append, List.length_replicate, List.length_cons]
    omega

end Stack

end ScriptMachine
