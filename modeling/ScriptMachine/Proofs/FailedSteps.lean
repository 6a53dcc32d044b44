import ScriptMachine.Proofs.CallProtocol
import ScriptMachine.Proofs.HeapChanges

/-!
# What is left of the stack when an instruction fails

An instruction that fails has taken words away from the top of the stack at most (`Tracked.prefix_of_error`). An
instruction first looks at the machine and takes operands away, which leaves the cells of the stack as they are
(`Execution.Trims`), and nothing fails any more once it has written to a cell.
-/

set_option autoImplicit false
set_option relaxedAutoImplicit false

namespace ScriptMachine

/-- A stack has certain cells, and no more than a number of them are in use. -/
structure Stack.Trimmed (stack : Stack) (cells : Array Word) (bound : Nat) : Prop where
  cells : stack.cells = cells
  top_le : stack.top ≤ bound

/-- The words left on a stack are those at the bottom of the one before. -/
theorem Stack.Trimmed.prefix {stack later : Stack} (htrimmed : later.Trimmed stack.cells stack.top) :
    later.contents <+: stack.contents := by
  rw [contents, contents, htrimmed.cells]
  exact List.take_prefix_take_left htrimmed.top_le

namespace Execution

variable {α β : Type} {cells : Array Word} {bound : Nat} {activity : Activity}

/-- Something takes words away from the top of the stack at most, whether it fails or not. -/
def Trims (cells : Array Word) (bound : Nat) (action : Execution α) : Prop :=
  ∀ activity : Activity, activity.machine.stack.Trimmed cells bound →
    (action.after activity).machine.stack.Trimmed cells bound

/-- If something fails, it has taken words away from the top of the stack at most. -/
def FailsTrimmed (cells : Array Word) (bound : Nat) (action : Execution α) (activity : Activity) : Prop :=
  ∀ (fault : Fault) (next : Activity), action activity = .error fault next →
    next.machine.stack.Trimmed cells bound

/-- What follows looking at the whole activity. -/
theorem get_bind_apply (rest : Activity → Execution β) (activity : Activity) :
    (get >>= rest) activity = rest activity activity :=
  rfl

/-- What follows a change of the whole activity. -/
theorem set_bind_apply (next : Activity) (rest : PUnit → Execution β) (activity : Activity) :
    (set next >>= rest) activity = rest ⟨⟩ next :=
  rfl

theorem Looks.trims {action : Execution α} (hlooks : Looks action) : Trims cells bound action :=
  fun activity htrimmed ↦ (hlooks activity).symm ▸ htrimmed

namespace Trims

theorem bind {part : Execution α} {rest : α → Execution β} (hpart : Trims cells bound part)
    (hrest : ∀ value : α, Trims cells bound (rest value)) : Trims cells bound (part >>= rest) :=
  @after_bind _ _ part
    (fun activity later ↦ activity.machine.stack.Trimmed cells bound → later.machine.stack.Trimmed cells bound) rest
    (fun hfirst hsecond htrimmed ↦ hsecond (hfirst htrimmed)) hpart hrest

theorem pop : Trims cells bound Execution.pop := by
  intro activity htrimmed
  unfold Execution.after Execution.pop
  split_ifs
  · exact htrimmed
  · exact ⟨htrimmed.cells, Nat.le_trans (Nat.sub_le _ _) htrimmed.top_le⟩

theorem cutStack {top : Nat} (hle : top ≤ bound) : Trims cells bound (Execution.cutStack top) :=
  fun _ htrimmed ↦ ⟨htrimmed.cells, hle⟩

theorem encode (value : Value) : Trims cells bound (Execution.encode value) := by
  intro activity htrimmed
  unfold Execution.after Execution.encode Machine.encode
  cases value.inlineWord? <;> exact htrimmed

theorem register (name : String) (value : Value) : Trims cells bound (Execution.register name value) :=
  fun _ htrimmed ↦ htrimmed

theorem applyNative (operation : Native) (receiver : Value) (arguments : List Value) :
    Trims cells bound (Execution.applyNative operation receiver arguments) := by
  intro activity htrimmed
  obtain ⟨sink, hafter⟩ := after_applyNative operation receiver arguments activity
  rw [hafter]
  exact htrimmed

theorem allocate (header : Word) (fields : List Word) :
    Trims cells bound (Execution.allocate header fields) := by
  intro activity htrimmed
  unfold Execution.after Execution.allocate Execution.onMachine Machine.onHeap
  dsimp only
  cases Heap.allocate header fields activity.machine.heap <;> exact htrimmed

theorem writeField (object : ObjectRef) (name : String) (word : Word) :
    Trims cells bound (Execution.writeField object name word) := by
  intro activity htrimmed
  unfold Execution.after Execution.writeField
  cases object.layout.slotOf? name <;> exact htrimmed

/-- What fails has trimmed the stack if it does so in any case. -/
theorem fails {action : Execution α} (htrims : Trims cells bound action)
    (htrimmed : activity.machine.stack.Trimmed cells bound) : FailsTrimmed cells bound action activity := by
  intro fault next herror
  have hafter := htrims activity htrimmed
  rwa [Execution.after, herror] at hafter

/-- What fails after trimming the stack. -/
theorem bind_fails {part : Execution α} {rest : α → Execution β} (hpart : Trims cells bound part)
    (htrimmed : activity.machine.stack.Trimmed cells bound)
    (hrest : ∀ (value : α) (next : Activity), next.machine.stack.Trimmed cells bound →
      FailsTrimmed cells bound (rest value) next) : FailsTrimmed cells bound (part >>= rest) activity := by
  intro fault last herror
  have hfirst := hpart activity htrimmed
  cases hresult : part activity with
  | ok value next =>
    rw [Execution.after, hresult] at hfirst
    rw [bind_of_ok hresult] at herror
    exact hrest value next hfirst fault last herror
  | error found next =>
    rw [bind_of_error hresult] at herror
    cases herror
    rwa [Execution.after, hresult] at hfirst

end Trims

namespace FailsTrimmed

/-- What fails before something that cannot fail. -/
theorem then_ok {part : Execution α} {rest : α → Execution β}
    (hpart : FailsTrimmed cells bound part activity)
    (hrest : ∀ (value : α) (next : Activity), ∃ (answer : β) (last : Activity),
      rest value next = .ok answer last) : FailsTrimmed cells bound (part >>= rest) activity := by
  intro fault next herror
  cases hresult : part activity with
  | ok value between =>
    obtain ⟨answer, last, hok⟩ := hrest value between
    rw [bind_of_ok hresult, hok] at herror
    cases herror
  | error found between =>
    rw [bind_of_error hresult] at herror
    cases herror
    exact hpart _ _ hresult

theorem push (htrimmed : activity.machine.stack.Trimmed cells bound) (word : Word) :
    FailsTrimmed cells bound (Execution.push word) activity := by
  intro fault next herror
  unfold Execution.push at herror
  split_ifs at herror
  cases herror
  exact htrimmed

theorem enter (htrimmed : activity.machine.stack.Trimmed cells bound) (routine : Routine)
    (argumentCount : Nat) (returnOffset caller : Word) :
    FailsTrimmed cells bound (Execution.enter routine argumentCount returnOffset caller) activity := by
  intro fault next herror
  unfold Execution.enter at herror
  dsimp only at herror
  split_ifs at herror <;> (cases herror; exact htrimmed)

/-- There is room for a word in a cell that is there. -/
theorem push_eq_ok (stacked : Activity) (hroom : stacked.machine.stack.top < stacked.machine.stack.cells.size)
    (word : Word) :
    ∃ next : Activity, Execution.push word stacked = .ok () next ∧
      next.machine.stack.top = stacked.machine.stack.top + 1 ∧
      next.machine.stack.cells.size = stacked.machine.stack.cells.size := by
  have hinside : stacked.machine.stack.hasRoom (stacked.machine.stack.top + 1) = true := by
    rw [Stack.hasRoom, decide_eq_true (Nat.succ_le_of_lt hroom), Bool.true_or]
  refine ⟨_, if_pos hinside, ?_, ?_⟩
  · dsimp only [Activity.mapStack, Stack.push]
    rw [Stack.reserve, if_pos (Nat.succ_le_of_lt hroom)]
  · dsimp only [Activity.mapStack, Stack.push]
    rw [Stack.reserve, if_pos (Nat.succ_le_of_lt hroom), Array.size_setIfInBounds]

/-- Two words that were taken away can be put back. -/
theorem swap (htrimmed : activity.machine.stack.Trimmed cells bound) (hfits : bound ≤ cells.size) :
    FailsTrimmed cells bound (execute .swap) activity := by
  intro fault next herror
  unfold execute at herror
  dsimp only at herror
  rcases pop_cases activity with ⟨hpositive, first, hpop, -, -, hstack⟩ | ⟨-, found, hpop⟩
  · rw [bind_of_ok hpop] at herror
    rcases pop_cases first with ⟨hmore, second, hpopped, -, -, hstackAgain⟩ | ⟨-, found, hpopped⟩
    · -- from here on nothing fails
      rw [bind_of_ok hpopped] at herror
      have hle := htrimmed.top_le
      have hcells := htrimmed.cells
      rw [hstack] at hmore hstackAgain
      dsimp only at hmore hstackAgain
      have hroom : second.machine.stack.top + 1 < second.machine.stack.cells.size := by
        rw [hstackAgain, hcells]
        dsimp only
        omega
      obtain ⟨third, hpushed, htop, hsize⟩ := push_eq_ok second (Nat.lt_of_succ_lt hroom)
        (activity.machine.stack.cell (activity.machine.stack.top - 1))
      rw [bind_of_ok hpushed] at herror
      obtain ⟨fourth, hdone, -, -⟩ := push_eq_ok third (by rw [htop, hsize]; exact hroom)
        (first.machine.stack.cell (first.machine.stack.top - 1))
      rw [bind_of_ok hdone] at herror
      cases herror
    · rw [bind_of_error hpopped] at herror
      cases herror
      rw [hstack]
      exact ⟨htrimmed.cells, Nat.le_trans (Nat.sub_le _ _) htrimmed.top_le⟩
  · rw [bind_of_error hpop] at herror
    cases herror
    exact htrimmed

theorem call (htrimmed : activity.machine.stack.Trimmed cells bound) (argumentCount : Nat) :
    FailsTrimmed cells bound (Execution.call argumentCount) activity := by
  intro fault next herror
  unfold Execution.call at herror
  dsimp only at herror
  split_ifs at herror with hfew
  · cases herror
    exact htrimmed
  · refine (Looks.functionOf _).trims.bind_fails htrimmed (fun callee between hbetween ↦ ?_) fault next herror
    cases callee with
    | native identity name operation =>
      have hfirst : activity.machine.stack.top - argumentCount - 2 ≤ bound :=
        Nat.le_trans (Nat.le_trans (Nat.sub_le _ _) (Nat.sub_le _ _)) htrimmed.top_le
      exact (Looks.decode _).trims.bind_fails hbetween fun _ _ htrimmed ↦
        (Looks.decodeAll _).trims.bind_fails htrimmed fun _ _ htrimmed ↦
        (Trims.applyNative _ _ _).bind_fails htrimmed fun _ _ htrimmed ↦
        (Trims.encode _).bind_fails htrimmed fun _ _ htrimmed ↦
        (Trims.cutStack hfirst).bind_fails htrimmed fun _ _ htrimmed ↦ push htrimmed _
    | compiled routine =>
      exact (enter hbetween routine _ _ _).then_ok fun _ _ ↦ ⟨_, _, rfl⟩

theorem leave (htrimmed : activity.machine.stack.Trimmed cells bound)
    (hbase : activity.machine.stack.base ≤ bound + 1) : FailsTrimmed cells bound Execution.leave activity := by
  intro fault next herror
  unfold Execution.leave at herror
  by_cases hempty : activity.machine.stack.top = 0
  · have hpop : Execution.pop activity = .error .stackUnderflow activity := if_pos hempty
    rw [bind_of_error hpop] at herror
    cases herror
    exact htrimmed
  · have hpop : Execution.pop activity =
        .ok (activity.machine.stack.cell (activity.machine.stack.top - 1))
          (activity.mapStack fun stack ↦ { stack with top := stack.top - 1 }) := if_neg hempty
    rw [bind_of_ok hpop, get_bind_apply, set_bind_apply] at herror
    have hless : activity.machine.stack.base - 1 ≤ bound := Nat.sub_le_of_le_add hbase
    split_ifs at herror
    · refine ((Looks.decode _).bind fun _ ↦ Looks.pure _).trims.fails ?_ _ _ herror
      exact ⟨htrimmed.cells, hless⟩
    · refine (Looks.functionOf _).trims.bind_fails ?_ (fun callee between hbetween ↦ ?_) _ _ herror
      · exact ⟨htrimmed.cells, hless⟩
      cases callee with
      | native identity name operation => exact (Looks.throw _).trims.fails hbetween
      | compiled routine =>
        exact Trims.bind_fails (fun _ hleft ↦ hleft) hbetween fun _ _ hleft ↦
          (push hleft _).then_ok fun _ _ ↦ ⟨_, _, rfl⟩

theorem construct (htrimmed : activity.machine.stack.Trimmed cells bound) (header : Word) :
    FailsTrimmed cells bound (Execution.construct header) activity := by
  refine (Looks.classOf header).trims.bind_fails htrimmed fun shape between hbetween ↦ ?_
  intro fault next herror
  rw [get_bind_apply] at herror
  dsimp only at herror
  split_ifs at herror with hfew
  · cases herror
    exact hbetween
  · refine (Trims.allocate _ _).bind_fails hbetween (fun reference made hmade ↦ ?_) fault next herror
    exact (Trims.cutStack (Nat.le_trans (Nat.sub_le _ _) hbetween.top_le)).bind_fails hmade
      fun _ _ htrimmed ↦ push htrimmed reference

/-- Whichever instruction fails, it has taken words away from the top of the stack at most. -/
theorem execute (htrimmed : activity.machine.stack.Trimmed cells bound) (hfits : bound ≤ cells.size)
    (hbase : activity.machine.stack.base ≤ bound + 1) (instruction : Instruction) :
    FailsTrimmed cells bound (Execution.execute instruction) activity := by
  cases instruction with
  | constant word => exact (push htrimmed word).then_ok fun _ _ ↦ ⟨_, _, rfl⟩
  | lookup name =>
    exact (Looks.nameOf _).trims.bind_fails htrimmed fun _ _ htrimmed ↦
      (Looks.lookup _).trims.bind_fails htrimmed fun _ _ htrimmed ↦
      (Trims.encode _).bind_fails htrimmed fun _ _ htrimmed ↦
      (push htrimmed _).then_ok fun _ _ ↦ ⟨_, _, rfl⟩
  | register name =>
    exact ((Looks.nameOf _).trims.bind fun _ ↦ Trims.pop.bind fun _ ↦ (Looks.decode _).trims.bind fun _ ↦
      (Trims.register _ _).bind fun _ ↦ (Looks.pure _).trims).fails htrimmed
  | load slot =>
    exact (Looks.slotOf _).trims.bind_fails htrimmed fun _ _ htrimmed ↦
      (Looks.readSlot _).trims.bind_fails htrimmed fun _ _ htrimmed ↦
      (push htrimmed _).then_ok fun _ _ ↦ ⟨_, _, rfl⟩
  | store slot =>
    exact (Looks.slotOf _).trims.bind_fails htrimmed fun _ _ htrimmed ↦
      Trims.pop.bind_fails htrimmed fun _ _ _ _ _ hdone ↦ nomatch hdone
  | duplicate =>
    exact Looks.peek.trims.bind_fails htrimmed fun _ _ htrimmed ↦
      (push htrimmed _).then_ok fun _ _ ↦ ⟨_, _, rfl⟩
  | pop => exact (Trims.pop.bind fun _ ↦ (Looks.pure _).trims).fails htrimmed
  | swap => exact swap htrimmed hfits
  | call argumentCount => exact (call htrimmed _).then_ok fun _ _ ↦ ⟨_, _, rfl⟩
  | ret => exact leave htrimmed hbase
  | goto target => exact fun _ _ hdone ↦ nomatch hdone
  | jumpIfFalse target =>
    refine Trims.pop.bind_fails htrimmed fun _ _ htrimmed ↦
      (Looks.isFalse _).trims.bind_fails htrimmed fun holds _ _ ↦ ?_
    cases holds <;> exact fun _ _ hdone ↦ nomatch hdone
  | new header => exact (construct htrimmed header).then_ok fun _ _ ↦ ⟨_, _, rfl⟩
  | get name =>
    exact (Looks.nameOf _).trims.bind_fails htrimmed fun _ _ htrimmed ↦
      Trims.pop.bind_fails htrimmed fun _ _ htrimmed ↦
      (Looks.objectOf _).trims.bind_fails htrimmed fun _ _ htrimmed ↦
      (Looks.readField _ _).trims.bind_fails htrimmed fun _ _ htrimmed ↦
      (push htrimmed _).then_ok fun _ _ ↦ ⟨_, _, rfl⟩
  | put name =>
    exact ((Looks.nameOf _).trims.bind fun _ ↦ Trims.pop.bind fun _ ↦ Trims.pop.bind fun _ ↦
      (Looks.objectOf _).trims.bind fun _ ↦ (Trims.writeField _ _ _).bind fun _ ↦
      (Looks.pure _).trims).fails htrimmed

end FailsTrimmed

end Execution

/-- When an instruction fails, the words left on the stack are those at the bottom of the stack before. -/
theorem Tracked.prefix_of_error {limit : Nat} {registry : Registry} {known : List Value}
    {activity next : Activity} {chain : FrameChain} {calls : CallStack}
    (htracked : Tracked limit registry known activity chain calls) {fault : Fault}
    (herror : Execution.step activity = .error fault next) :
    next.machine.stack.contents <+: activity.machine.stack.contents := by
  have hrealizes := htracked.mirrors.realizes
  have hbase : activity.machine.stack.base ≤ activity.machine.stack.top + 1 := by
    rw [show activity.machine.stack.base = chain.base from hrealizes.base, hrealizes.top_eq, chain.base_eq]
    have hlower : chain.lower.length ≤ chain.contents.length := by
      rw [chain.contents_eq, FrameChain.floor]
      simp only [List.length_append, List.length_cons]
      omega
    exact Nat.succ_le_succ hlower
  have htrimmed : activity.machine.stack.Trimmed activity.machine.stack.cells activity.machine.stack.top :=
    ⟨rfl, Nat.le_refl _⟩
  refine Stack.Trimmed.prefix ?_
  cases hinstruction : activity.frame.routine.unit.instructionAt activity.offset with
  | error found =>
    rw [Execution.step_of_instructionAt_error hinstruction] at herror
    cases herror
    exact htrimmed
  | ok instruction =>
    rw [Execution.step_of_instructionAt hinstruction] at herror
    refine Execution.FailsTrimmed.execute ?_ hrealizes.fits.top_le ?_ instruction fault next herror
    · exact htrimmed
    · exact hbase

end ScriptMachine
