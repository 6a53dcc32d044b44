import ScriptMachine.Proofs.LineTable

/-!
# Line tables of written code

A `CodeBuffer.Action` is one operation on a code buffer, and `CodeBuffer.written` the buffer after a number of them, in
any order. Its line table says exactly where lines begin (`CodeBuffer.lineAt_written`): at every offset stands the line
of the last instruction that starts there or before, also at the operands behind it, although an instruction with the
line of the one before has no entry.
-/

set_option autoImplicit false
set_option relaxedAutoImplicit false

namespace ScriptMachine

namespace CodeBuffer

/-! ### Actions -/

/-- An operation on a code buffer. -/
inductive Action where
  | emit (number line : UInt32)
  | operand (word : UInt32)
  | placeholder
  | patch (offset label : Nat)
  deriving DecidableEq

/-- The buffer after an action. -/
def Action.apply (buffer : CodeBuffer) : Action → CodeBuffer
  | .emit number line => buffer.emit number line
  | .operand word => buffer.operand word
  | .placeholder => buffer.placeholder
  | .patch offset label => buffer.patch offset label

/-- The line of the instruction that an action starts. -/
def Action.line? : Action → Option UInt32
  | .emit _ line => some line
  | .operand _ | .placeholder | .patch _ _ => none

/-- The buffer after actions that begin with an empty one. -/
def written (actions : List Action) : CodeBuffer :=
  actions.foldl Action.apply empty

/-- The marks of the instructions that actions start, each at the offset behind the words that are there before. -/
def marksFrom (buffer : CodeBuffer) : List Action → List LineMark
  | [] => []
  | action :: rest => (action.line?.map (LineMark.mk buffer.label)).toList ++ marksFrom (action.apply buffer) rest

/-- The marks of the instructions of a written buffer. -/
def marks (actions : List Action) : List LineMark :=
  marksFrom empty actions

section Actions

variable (buffer : CodeBuffer) (action : Action) (actions : List Action)

/-- No action takes words away. -/
theorem label_le_apply : buffer.label ≤ (action.apply buffer).label := by
  cases action with
  | emit number line | operand word | placeholder =>
    exact Nat.le_of_lt (Nat.lt_of_lt_of_eq (Nat.lt_succ_self _) (Array.size_push _).symm)
  | patch offset label => exact Nat.le_of_eq Array.size_setIfInBounds.symm

/-- An action that starts an instruction adds its word. -/
theorem label_lt_apply {line : UInt32} (hline : action.line? = some line) :
    buffer.label < (action.apply buffer).label := by
  cases action with
  | emit number line => exact Nat.lt_of_lt_of_eq (Nat.lt_succ_self _) (Array.size_push _).symm
  | operand | placeholder | patch => cases hline

/-- No actions take words away. -/
theorem label_le_foldl : buffer.label ≤ (actions.foldl Action.apply buffer).label := by
  induction actions generalizing buffer with
  | nil => exact Nat.le_refl _
  | cons action rest ih => exact Nat.le_trans (buffer.label_le_apply action) (ih _)

/-- The marks of actions are followed by those of the actions behind. -/
theorem marksFrom_append (first second : List Action) :
    marksFrom buffer (first ++ second) =
      marksFrom buffer first ++ marksFrom (first.foldl Action.apply buffer) second := by
  induction first generalizing buffer with
  | nil => rfl
  | cons action rest ih => rw [List.cons_append, marksFrom, ih, marksFrom, List.append_assoc, List.foldl_cons]

/-- The marks of actions lie behind the words that are there before, and before the end. -/
theorem mem_marksFrom {mark : LineMark} (hmark : mark ∈ marksFrom buffer actions) :
    buffer.label ≤ mark.offset ∧ mark.offset < (actions.foldl Action.apply buffer).label := by
  induction actions generalizing buffer with
  | nil => exact absurd hmark List.not_mem_nil
  | cons action rest ih =>
    rw [marksFrom, List.mem_append, Option.mem_toList, Option.map_eq_some_iff] at hmark
    rcases hmark with ⟨line, hline, rfl⟩ | hrest
    · exact ⟨Nat.le_refl _, Nat.lt_of_lt_of_le (buffer.label_lt_apply action hline) (label_le_foldl _ rest)⟩
    · obtain ⟨hbehind, hbefore⟩ := ih _ hrest
      exact ⟨Nat.le_trans (buffer.label_le_apply action) hbehind, hbefore⟩

/-- The marks of actions follow one another. -/
theorem pairwise_marksFrom :
    (marksFrom buffer actions).Pairwise fun earlier later ↦ earlier.offset < later.offset := by
  induction actions generalizing buffer with
  | nil => exact List.Pairwise.nil
  | cons action rest ih =>
    rw [marksFrom]
    cases hline : action.line? with
    | none => exact ih _
    | some line =>
      refine List.pairwise_cons.mpr ⟨fun mark hmark ↦ ?_, ih _⟩
      exact Nat.lt_of_lt_of_le (buffer.label_lt_apply action hline) (mem_marksFrom _ rest hmark).1

/-- An action records the mark of the instruction that it starts, and nothing otherwise. -/
theorem lines_apply :
    (action.apply buffer).lines = (action.line?.map (LineMark.mk buffer.label)).toList.foldl
      (fun lines mark ↦ recordLine lines mark.offset mark.line) buffer.lines := by
  cases action with
  | emit | operand | placeholder | patch => rfl

/-- Actions record the marks of their instructions. -/
theorem lines_foldl :
    (actions.foldl Action.apply buffer).lines = (marksFrom buffer actions).foldl
      (fun lines mark ↦ recordLine lines mark.offset mark.line) buffer.lines := by
  induction actions generalizing buffer with
  | nil => rfl
  | cons action rest ih => rw [List.foldl_cons, ih, lines_apply, marksFrom, List.foldl_append]

end Actions

/-- The line table of a written buffer records the marks of its instructions. -/
theorem lines_written (actions : List Action) : (written actions).lines = LineMark.table (marks actions) :=
  lines_foldl empty actions

/-- The marks of a written buffer are ordered as long as its offsets fit into words. -/
theorem ordered_marks {actions : List Action} (hsize : (written actions).label ≤ 4294967296) :
    LineMark.Ordered (marks actions) := by
  refine ⟨pairwise_marksFrom _ _, fun mark hmark ↦ ?_⟩
  exact Nat.lt_of_lt_of_le (mem_marksFrom _ _ hmark).2 hsize

/-- Actions that start no instruction leave no marks. -/
theorem marksFrom_eq_nil {buffer : CodeBuffer} {operands : List Action}
    (hoperands : ∀ action ∈ operands, action.line? = none) : marksFrom buffer operands = [] := by
  induction operands generalizing buffer with
  | nil => rfl
  | cons action rest ih =>
    obtain ⟨haction, hrest⟩ := List.forall_mem_cons.mp hoperands
    rw [marksFrom, haction, ih hrest]
    rfl

/-- At an instruction and at the operands behind it, the marks give its line. -/
theorem lineUpTo_marks {before operands after : List Action} {number line : UInt32} {offset : Nat}
    (hoperands : ∀ action ∈ operands, action.line? = none) (hbehind : (written before).label ≤ offset)
    (hbefore : offset < (written (before ++ .emit number line :: operands)).label) :
    LineMark.lineUpTo (marks (before ++ .emit number line :: operands ++ after)) offset = line := by
  have hmarks : marks (before ++ .emit number line :: operands ++ after) =
      marks before ++ ⟨(written before).label, line⟩ ::
        marksFrom (written (before ++ .emit number line :: operands)) after := by
    unfold marks
    rw [marksFrom_append, marksFrom_append, marksFrom, marksFrom_eq_nil hoperands, List.append_assoc]
    rfl
  rw [hmarks]
  refine LineMark.lineUpTo_split hbehind fun other hother ↦ ?_
  exact Nat.lt_of_lt_of_le hbefore (mem_marksFrom _ after hother).1

/-! ### The table -/

/-- The line table of a buffer that any actions wrote is exact, as long as the offsets fit into words. The line at an
offset is that of the last instruction that starts up to it, and zero where none does. In particular an instruction
and all words behind it, up to the next instruction, have the line that the instruction was given. The recorded
offsets increase, and no two neighbouring entries have one line. -/
theorem lineAt_written {actions : List Action} (hsize : (written actions).label ≤ 4294967296)
    (parameterCount slotCount : Nat) :
    (∀ offset : Nat, ((written actions).finish parameterCount slotCount).lineAt offset =
      LineMark.lineUpTo (marks actions) offset) ∧
    (∀ (before operands after : List Action) (number line : UInt32) (offset : Nat),
      actions = before ++ .emit number line :: operands ++ after →
      (∀ action ∈ operands, action.line? = none) → (written before).label ≤ offset →
      offset < (written (before ++ .emit number line :: operands)).label →
        ((written actions).finish parameterCount slotCount).lineAt offset = line) ∧
    (written actions).lines.toList.Pairwise (fun earlier later ↦ earlier.offset < later.offset) ∧
    (written actions).lines.toList.IsChain (fun entry next ↦ entry.line ≠ next.line) := by
  have hordered := ordered_marks hsize
  have hrecords : LineMark.Records (written actions).lines (marks actions) :=
    (lines_written actions).symm ▸ hordered.records
  have hline : ∀ offset : Nat, ((written actions).finish parameterCount slotCount).lineAt offset =
      LineMark.lineUpTo (marks actions) offset := hordered.lineAt_eq (lines_written actions)
  refine ⟨hline, ?_, hrecords.increasing, hrecords.changing⟩
  rintro before operands after number line offset rfl hoperands hbehind hbefore
  rw [hline, lineUpTo_marks hoperands hbehind hbefore]

/-- A buffer that begins with an operand and comes back to a line that it had before. Nothing stands before its first
instruction, and the operand at its end has the line of the last one. -/
theorem lineAt_written_recurring :
    (written [.operand 7, .emit 1 5, .placeholder, .emit 2 5, .patch 2 4, .emit 3 6, .emit 4 5, .operand 9]).label ≤
        4294967296 ∧
      ((written [.operand 7, .emit 1 5, .placeholder, .emit 2 5, .patch 2 4, .emit 3 6, .emit 4 5, .operand 9]).finish
        1 1).lineAt 6 = 5 ∧
      ((written [.operand 7, .emit 1 5, .placeholder, .emit 2 5, .patch 2 4, .emit 3 6, .emit 4 5, .operand 9]).finish
        1 1).lineAt 0 = 0 := by
  have hsize : (written [.operand 7, .emit 1 5, .placeholder, .emit 2 5, .patch 2 4, .emit 3 6, .emit 4 5,
    .operand 9]).label ≤ 4294967296 := by decide
  obtain ⟨hline, hown, -, -⟩ := lineAt_written hsize 1 1
  refine ⟨hsize, ?_, (hline 0).trans (by decide)⟩
  exact hown [.operand 7, .emit 1 5, .placeholder, .emit 2 5, .patch 2 4, .emit 3 6] [.operand 9] [] 4 5 6 rfl
    (by decide) (by decide) (by decide)

end CodeBuffer

end ScriptMachine
