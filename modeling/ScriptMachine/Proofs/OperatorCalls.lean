import ScriptMachine.Proofs.CrowdedTables
import ScriptMachine.Proofs.MirroringCalls
import ScriptMachine.Proofs.OperatorLaws

/-!
# Calls of operators

A call of an operator finds the words of the operator, of a receiver and of two operands on top of the stack
(`Activity.CallsOperator`), and puts the word of the result in their place, in whatever state the machine is
(`Activity.answers_operator`). Results are integers, so that the word leads back to the result whether it is a small
integer or an entry of the constant table (`ConstantTable.decode_encode_integer`). An operator that fails leaves
everything as it is.
-/

set_option autoImplicit false
set_option relaxedAutoImplicit false

namespace ScriptMachine

/-- What something comes to that leaves the state as it is, given what becomes of a fault. -/
def settled {ε σ : Type} (failure : Fault → ε) (state : σ) : Except Fault Value → EStateM.Result ε σ Value
  | .ok value => .ok value state
  | .error fault => .error (failure fault) state

/-! ### Operators on values -/

section Values

variable {operation : Builtin} {left right value : Value}

/-- A call of an operator with two values comes to its result, and prints nothing. -/
theorem Builtin.apply_pair (hoperation : operation ≠ .print) (left right : Value) (sink : Sink) :
    operation.apply [left, right] sink = settled id sink (operation.combine left right) := by
  cases operation
  case print => exact absurd rfl hoperation
  all_goals
    unfold Builtin.apply
    dsimp only
    generalize Builtin.combine _ left right = result
    cases result <;> rfl

/-- The result of an operator is an integer. -/
theorem Builtin.exists_integer (hoperation : operation ≠ .print)
    (hresult : operation.combine left right = .ok value) : ∃ number : Int64, value = .integer number := by
  have harithmetic : ∀ compute : Int64 → Int64 → Except Fault Int64,
      Builtin.arithmetic compute left right = .ok value → ∃ number : Int64, value = .integer number := by
    intro compute hcomputed
    unfold Builtin.arithmetic at hcomputed
    cases left <;> cases right <;> try cases hcomputed
    simp only [Builtin.integerArgument, bind, Except.bind] at hcomputed
    split at hcomputed <;> cases hcomputed
    exact ⟨_, rfl⟩
  have hcomparison : ∀ test : Ordering → Bool,
      Builtin.comparison test left right = .ok value → ∃ number : Int64, value = .integer number := by
    intro test hcompared
    unfold Builtin.comparison at hcompared
    cases hordering : Builtin.ordering left right with
    | ok order =>
      rw [hordering] at hcompared
      cases hcompared
      exact ⟨_, rfl⟩
    | error fault =>
      rw [hordering] at hcompared
      cases hcompared
  cases operation
  case print => exact absurd rfl hoperation
  case add | subtract | multiply | divide | remainder => exact harithmetic _ hresult
  case less | atMost | greater | atLeast => exact hcomparison _ hresult
  all_goals
    cases hresult
    exact ⟨_, rfl⟩

end Values

/-! ### Operators on words -/

/-- Encoding a value extends the table. -/
theorem ConstantTable.encode_extends (table : ConstantTable) (value : Value) :
    table.Extends (table.encode value).2 := by
  unfold encode
  cases value.inlineWord? with
  | some word => exact .refl table
  | none => exact table.box_extends value

/-- The word of an integer leads back to the integer, as long as words can number the constants. -/
theorem ConstantTable.decode_encode_integer (table : ConstantTable) (heap : Heap) (number : Int64)
    (hsize : (table.encode (.integer number)).2.size ≤ Word.indexLimit) :
    decode (table.encode (.integer number)).2 heap (table.encode (.integer number)).1 = .ok (.integer number) := by
  cases hinline : (Value.integer number).inlineWord? with
  | some word =>
    rw [show table.encode (.integer number) = (word, table) from settles_of_inlineWord? hinline]
    exact decode_inline (by rintro reference ⟨⟩) hinline heap
  | none =>
    rw [encode_eq_box hinline] at hsize ⊢
    obtain ⟨found, hboxed, hfound⟩ := table.exists_boxed_box (.integer number)
    -- an entry with the key of an integer is the integer
    obtain rfl : found = .integer number := by
      rcases hfound with rfl | ⟨-, hkey, -⟩
      · rfl
      · cases found <;> cases hkey
        rfl
    exact decodeWithin_of_constant? (hboxed.constant?_eq hsize) _

namespace Activity

/-- On top of the stack lie the words of a builtin operation, of a receiver and of two operands. -/
structure CallsOperator (activity : Activity) (operation : Builtin) (left right : Value) : Prop where
  room : 4 ≤ activity.machine.stack.top
  callee : ∃ (identity : Nat) (name : String),
    activity.machine.decode (activity.machine.stack.cell (activity.machine.stack.top - 4)) =
      .ok (.function (.native identity name (.builtin operation)))
  receiver : ∃ receiver : Value,
    activity.machine.decode (activity.machine.stack.cell (activity.machine.stack.top - 3)) = .ok receiver
  left : activity.machine.decode (activity.machine.stack.cell (activity.machine.stack.top - 2)) = .ok left
  right : activity.machine.decode (activity.machine.stack.cell (activity.machine.stack.top - 1)) = .ok right

/-- The activity with one word in the place of the uppermost four, and with other constants. -/
def answered (activity : Activity) (word : Word) (constants : ConstantTable) : Activity :=
  { activity with
    machine :=
      { activity.machine with
        stack :=
          { activity.machine.stack.setCell (activity.machine.stack.top - 4) word with
            top := activity.machine.stack.top - 3 }
        constants := constants } }

/-- A call of a function with two arguments comes to a result: it puts a word of the value in the place of function,
receiver and arguments, and changes nothing else but to add constants, or it fails and changes nothing. -/
def Answers (activity : Activity) : Except Fault Value → Prop
  | .ok value =>
    ∃ (word : Word) (constants : ConstantTable),
      Execution.execute (.call 2) activity = .ok none (activity.answered word constants) ∧
        activity.machine.constants.Extends constants ∧
        (constants.size ≤ Word.indexLimit →
          (activity.answered word constants).machine.decode
            ((activity.answered word constants).machine.stack.cell (activity.machine.stack.top - 4)) = .ok value)
  | .error fault => Execution.execute (.call 2) activity = .error fault activity

end Activity

namespace Execution

variable {activity : Activity} {operation : Builtin} {left right value : Value}

/-- Encoding a value changes the constants only. -/
theorem encode_eq (value : Value) (activity : Activity) :
    encode value activity =
      .ok (activity.machine.constants.encode value).1
        { activity with
          machine := { activity.machine with constants := (activity.machine.constants.encode value).2 } } := by
  unfold encode Machine.encode ConstantTable.encode
  cases value.inlineWord? <;> rfl

/-- The word of a function lies in a cell that is there. -/
theorem lt_size_of_decode {position : Nat} {callee : Function}
    (hdecoded : activity.machine.decode (activity.machine.stack.cell position) = .ok (.function callee)) :
    position < activity.machine.stack.cells.size := by
  by_contra houtside
  -- beyond the row of cells lies the integer zero
  have hcell : activity.machine.stack.cell position = Word.zero := by
    unfold Stack.cell
    rw [Array.getD_eq_getD_getElem?, Array.getElem?_eq_none (Nat.le_of_not_lt houtside)]
    rfl
  rw [hcell] at hdecoded
  cases hdecoded

/-- Cutting the stack down to a cell that is there and putting a word on top replaces that cell. -/
theorem cut_push (activity : Activity) {position : Nat} (hinside : position < activity.machine.stack.cells.size)
    (word : Word) :
    (cutStack position >>= fun _ ↦ push word) activity =
      .ok () (activity.mapStack fun stack ↦ { stack.setCell position word with top := position + 1 }) := by
  have hroom : Stack.hasRoom { activity.machine.stack with top := position } (position + 1) = true := by
    rw [Stack.hasRoom, decide_eq_true (Nat.succ_le_of_lt hinside), Bool.true_or]
  have hreserve : Stack.reserve { activity.machine.stack with top := position } (position + 1) =
      { activity.machine.stack with top := position } :=
    if_pos (Nat.succ_le_of_lt hinside)
  refine (bind_of_ok rfl).trans ((if_pos hroom).trans ?_)
  unfold Activity.mapStack Stack.push
  dsimp only
  rw [hreserve]
  rfl

/-- A call of an operator is the carrying out of the operator and the encoding of its result. -/
theorem call_of_callsOperator (hcalls : activity.CallsOperator operation left right) :
    ∃ receiver : Value, call 2 activity =
      (do
        let result ← applyNative (.builtin operation) receiver [left, right]
        let word ← encode result
        cutStack (activity.machine.stack.top - 4)
        push word : Execution Unit) activity := by
  obtain ⟨hroom, ⟨identity, name, hcallee⟩, ⟨receiver, hreceiver⟩, hleft, hright⟩ := hcalls
  have hfunction : functionOf (activity.machine.stack.cell (activity.machine.stack.top - 2 - 2)) activity =
      .ok (.native identity name (.builtin operation)) activity := by
    rw [Nat.sub_sub, functionOf, bind_of_ok (decode_of_ok hcallee)]
    rfl
  have hslice : activity.machine.stack.slice (activity.machine.stack.top - 2) 2 =
      [activity.machine.stack.cell (activity.machine.stack.top - 2),
        activity.machine.stack.cell (activity.machine.stack.top - 1)] := by
    rw [show activity.machine.stack.top - 1 = activity.machine.stack.top - 2 + 1 by omega]
    rfl
  have hdecoded : decodeAll [activity.machine.stack.cell (activity.machine.stack.top - 2),
      activity.machine.stack.cell (activity.machine.stack.top - 1)] activity = .ok [left, right] activity := by
    rw [decodeAll, bind_of_ok (decode_of_ok hleft), decodeAll, bind_assoc, bind_of_ok (decode_of_ok hright)]
    rfl
  refine ⟨receiver, ?_⟩
  rw [call_of_native (Nat.not_lt_of_le hroom) hfunction, hslice, Nat.sub_sub, Nat.sub_sub,
    bind_of_ok (decode_of_ok hreceiver), bind_of_ok hdecoded]

/-- An operator changes nothing of the machine. -/
theorem applyNative_operator (hoperation : operation ≠ .print) (receiver left right : Value) (activity : Activity) :
    applyNative (.builtin operation) receiver [left, right] activity =
      settled id activity (operation.combine left right) := by
  unfold applyNative onMachine Machine.applyNative Machine.onSink
  dsimp only
  rw [Builtin.apply_pair hoperation]
  cases operation.combine left right <;> rfl

end Execution

/-- A call of an operator on the words of two values comes to what the operator makes of the values, whatever else the
machine holds. -/
theorem Activity.answers_operator {activity : Activity} {operation : Builtin} {left right : Value}
    (hoperation : operation ≠ .print) (hcalls : activity.CallsOperator operation left right) :
    activity.Answers (operation.combine left right) := by
  obtain ⟨receiver, hcall⟩ := Execution.call_of_callsOperator hcalls
  have hexecute : Execution.execute (.call 2) activity =
      (Execution.call 2 >>= fun _ ↦ (pure none : Execution (Option Value))) activity := rfl
  have happlied := Execution.applyNative_operator hoperation receiver left right activity
  cases hresult : operation.combine left right with
  | error fault =>
    rw [hresult] at happlied
    rw [Execution.bind_of_error happlied] at hcall
    exact hexecute.trans (Execution.bind_of_error hcall)
  | ok value =>
    obtain ⟨number, rfl⟩ := Builtin.exists_integer hoperation hresult
    obtain ⟨identity, name, hcallee⟩ := hcalls.callee
    have hinside := Execution.lt_size_of_decode hcallee
    have hroom := hcalls.room
    rw [hresult] at happlied
    rw [Execution.bind_of_ok happlied, Execution.bind_of_ok (Execution.encode_eq _ _)] at hcall
    have hanswered : Execution.call 2 activity =
        .ok () (activity.answered (activity.machine.constants.encode (.integer number)).1
          (activity.machine.constants.encode (.integer number)).2) := by
      refine (hcall.trans (Execution.cut_push _ (by exact hinside) _)).trans ?_
      rw [show activity.machine.stack.top - 4 + 1 = activity.machine.stack.top - 3 by omega]
      rfl
    refine ⟨_, _, hexecute.trans (Execution.bind_of_ok hanswered), ConstantTable.encode_extends _ _, fun hsize ↦ ?_⟩
    have hcell : (activity.answered (activity.machine.constants.encode (.integer number)).1
        (activity.machine.constants.encode (.integer number)).2).machine.stack.cell (activity.machine.stack.top - 4) =
          (activity.machine.constants.encode (.integer number)).1 := by
      unfold Stack.cell
      rw [Array.getD_eq_getD_getElem?]
      exact congrArg (fun word ↦ word.getD Word.zero) (Array.getElem?_setIfInBounds_self_of_lt hinside)
    rw [hcell]
    exact ConstantTable.decode_encode_integer _ _ _ hsize

end ScriptMachine
