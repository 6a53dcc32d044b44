import ScriptMachine.Proofs.FailedSteps
import ScriptMachine.Proofs.HostCalls

/-!
# What outlives an instruction that fails

The heap and the globals outlive the run of a function. An instruction that fails leaves both as they were, with one
exception (`Session.failures_keep_lasting`). An object takes the place of the values of its fields on the stack, so
that there is room for its reference if it has a field. An object without fields needs one more word, and on a full
stack the instruction fails when the object is on the heap already. `Activity.spilled` is what then stays there.
-/

set_option autoImplicit false
set_option relaxedAutoImplicit false

namespace ScriptMachine

/-! ### Parts of instructions -/

/-- What outlives a run is the same later. -/
structure Activity.SameLasting (activity later : Activity) : Prop where
  heap : later.machine.heap = activity.machine.heap
  globals : later.machine.globals = activity.machine.globals

namespace Activity.SameLasting

theorem refl (activity : Activity) : activity.SameLasting activity :=
  ⟨rfl, rfl⟩

theorem trans {first second third : Activity} (hfirst : first.SameLasting second)
    (hsecond : second.SameLasting third) : first.SameLasting third :=
  ⟨hsecond.heap.trans hfirst.heap, hsecond.globals.trans hfirst.globals⟩

end Activity.SameLasting

theorem Activity.Calm.sameLasting {activity later : Activity} (hcalm : activity.Calm later) :
    activity.SameLasting later :=
  ⟨hcalm.heap, hcalm.globals⟩

namespace Execution

variable {α β : Type}

/-- Something changes nothing that outlives the run. -/
def Transient (action : Execution α) : Prop :=
  ∀ activity : Activity, activity.SameLasting (action.after activity)

/-- Something changes nothing that outlives the run when it fails. -/
def FailsTransient (action : Execution α) : Prop :=
  ∀ (activity final : Activity) (fault : Fault), action activity = .error fault final → activity.SameLasting final

theorem Calm.transient {action : Execution α} (hcalm : Calm action) : Transient action :=
  fun activity ↦ (hcalm activity).sameLasting

theorem Looks.transient {action : Execution α} (hlooks : Looks action) : Transient action :=
  hlooks.quiet.calm.transient

/-- What cannot fail changes nothing when it fails. -/
theorem FailsTransient.of_ok {action : Execution α}
    (hok : ∀ activity : Activity, ∃ (value : α) (next : Activity), action activity = .ok value next) :
    FailsTransient action := by
  intro activity final fault herror
  obtain ⟨value, next, hdone⟩ := hok activity
  cases hdone.symm.trans herror

/-- What comes before something that cannot fail. -/
theorem FailsTransient.then_ok {part : Execution α} {rest : α → Execution β} (hpart : FailsTransient part)
    (hrest : ∀ (value : α) (activity : Activity), ∃ (answer : β) (next : Activity),
      rest value activity = .ok answer next) : FailsTransient (part >>= rest) := by
  intro activity final fault herror
  cases hresult : part activity with
  | ok value next =>
    obtain ⟨answer, last, hdone⟩ := hrest value next
    rw [bind_of_ok hresult, hdone] at herror
    cases herror
  | error found next =>
    rw [bind_of_error hresult] at herror
    cases herror
    exact hpart _ _ _ hresult

namespace Transient

theorem fails {action : Execution α} (htransient : Transient action) : FailsTransient action := by
  intro activity final fault herror
  have hafter := htransient activity
  rwa [Execution.after, herror] at hafter

/-- What comes after something that changes nothing. -/
theorem bind_fails {part : Execution α} {rest : α → Execution β} (hpart : Transient part)
    (hrest : ∀ value : α, FailsTransient (rest value)) : FailsTransient (part >>= rest) :=
  fails_bind Activity.SameLasting.trans hpart hrest

end Transient

/-! ### Instructions -/

/-- An instruction that makes no object changes nothing that outlives the run when it fails: it has nothing more to
do once it binds a global or assigns a field. -/
theorem execute_failsTransient {instruction : Instruction} (hnew : ∀ header : Word, instruction ≠ .new header) :
    FailsTransient (execute instruction) := by
  have hpop : Transient Execution.pop := Quiet.pop.calm.transient
  cases instruction
  case register name =>
    exact (Looks.nameOf _).transient.bind_fails fun _ ↦ hpop.bind_fails fun _ ↦
      (Looks.decode _).transient.bind_fails fun _ ↦ .of_ok fun _ ↦ ⟨_, _, rfl⟩
  case new header => exact absurd rfl (hnew header)
  case put name =>
    refine (Looks.nameOf _).transient.bind_fails fun _ ↦ hpop.bind_fails fun _ ↦ hpop.bind_fails fun _ ↦
      (Looks.objectOf _).transient.bind_fails fun object ↦ FailsTransient.then_ok ?_ fun _ _ ↦ ⟨_, _, rfl⟩
    intro activity final fault herror
    unfold writeField at herror
    split at herror <;> cases herror
    exact .refl _
  all_goals exact Transient.fails (Calm.transient (calm_execute trivial))

/-! ### Objects on a full stack -/

/-- Making an object leaves the stack and the globals as they are. -/
theorem after_allocate (header : Word) (fields : List Word) (activity : Activity) :
    ((allocate header fields).after activity).machine.stack = activity.machine.stack ∧
      ((allocate header fields).after activity).machine.globals = activity.machine.globals := by
  unfold Execution.after allocate onMachine Machine.onHeap
  dsimp only
  cases Heap.allocate header fields activity.machine.heap <;> exact ⟨rfl, rfl⟩

/-- If building an object fails, either there is none or it has no fields and its reference finds the stack full: a
reference takes the place of the values of the fields. -/
theorem construct_fails {activity final : Activity} {header : Word} {fault : Fault}
    (herror : construct header activity = .error fault final)
    (htop : activity.machine.stack.top ≤ activity.machine.stack.cells.size) :
    (Activity.making? activity.machine header = none ∧ activity.SameLasting final) ∨
      (∃ (index : Nat) (layout : Class), layout.fieldCount = 0 ∧
          Activity.making? activity.machine header = some (.make index layout ⟨header, []⟩ [])) ∧
        final.machine.globals = activity.machine.globals ∧
        fault = .stackOverflow activity.machine.stack.limit := by
  unfold Activity.making?
  unfold construct classOf at herror
  rw [bind_assoc] at herror
  cases hvalue : activity.machine.decode header with
  | error found =>
    rw [bind_of_error (decode_of_error hvalue)] at herror
    cases herror
    exact Or.inl ⟨rfl, .refl _⟩
  | ok found =>
    rw [bind_of_ok (decode_of_ok hvalue)] at herror
    cases found
    case layout layout =>
      dsimp only at herror ⊢
      rw [pure_bind, get_bind_apply] at herror
      split_ifs at herror with hfew
      · cases herror
        exact Or.inl ⟨if_neg fun hboth ↦ absurd hfew (Nat.not_lt_of_le hboth.1), .refl _⟩
      obtain ⟨hstack, hglobals⟩ :=
        after_allocate header (activity.machine.stack.topmost layout.fieldCount) activity
      rcases allocate_cases header (activity.machine.stack.topmost layout.fieldCount) activity with
        ⟨hfits, reference, made, hmade, -⟩ | ⟨hfull, found, hrefused⟩
      · rw [Execution.after, hmade] at hstack hglobals
        rw [Stack.topmost] at hmade
        have hcut : cutStack (activity.machine.stack.top - layout.fieldCount) made =
            .ok () (made.mapStack fun stack ↦ { stack with top := activity.machine.stack.top - layout.fieldCount }) :=
          rfl
        rw [bind_of_ok hmade, bind_of_ok hcut] at herror
        unfold push at herror
        split_ifs at herror with hroom
        cases herror
        dsimp only [Activity.mapStack] at hroom
        rw [Stack.hasRoom, hstack, Bool.or_eq_true, decide_eq_true_eq] at hroom
        have hnone : layout.fieldCount = 0 := by
          dsimp only at hroom
          omega
        rw [Stack.length_topmost] at hfits
        refine Or.inr ⟨⟨activity.machine.heap.used, layout, hnone,
          (if_pos ⟨Nat.le_of_not_lt hfew, hfits⟩).trans ?_⟩, hglobals, congrArg (Fault.stackOverflow ·.limit) hstack⟩
        rw [Stack.topmost, hnone]
        rfl
      · rw [Stack.topmost] at hrefused
        rw [bind_of_error hrefused] at herror
        cases herror
        rw [Stack.length_topmost] at hfull
        exact Or.inl ⟨if_neg fun hboth ↦ hfull hboth.2, .refl _⟩
    all_goals
      cases herror
      exact Or.inl ⟨rfl, .refl _⟩

/-- The instruction that makes an object fails where building the object does. -/
theorem construct_of_execute {activity final : Activity} {header : Word} {fault : Fault}
    (herror : execute (.new header) activity = .error fault final) :
    construct header activity = .error fault final := by
  cases hbuilt : construct header activity with
  | ok value next =>
    rw [execute, bind_of_ok hbuilt] at herror
    cases herror
  | error found next =>
    rw [execute, bind_of_error hbuilt] at herror
    cases herror
    rfl

end Execution

namespace Activity

/-- What stays on the heap if the next instruction fails: an object without fields for which the heap has room. -/
def spilled (activity : Activity) : List Word :=
  match activity.change? with
  | some (.make _ layout row _) => if layout.fieldCount = 0 then row.words else []
  | _ => []

/-- What a failing instruction leaves behind. The globals are as before, and so is the heap but for words that were
spilled because the stack is full. -/
structure LeavesBehind (activity : Activity) (fault : Fault) (final : Activity) : Prop where
  globals : final.machine.globals = activity.machine.globals
  contents : final.machine.heap.contents = activity.machine.heap.contents ++ activity.spilled
  fault : activity.spilled ≠ [] → fault = .stackOverflow activity.machine.stack.limit

/-- What outlives the run stays if nothing is spilled. -/
theorem SameLasting.leavesBehind {activity final : Activity} (hsame : activity.SameLasting final)
    (hspilled : activity.spilled = []) (fault : Fault) : activity.LeavesBehind fault final where
  globals := hsame.globals
  contents := by rw [hspilled, List.append_nil, hsame.heap]
  fault hsome := absurd hspilled hsome

/-- An assignment, if there is one, is one of a field. -/
theorem assigning?_cases (machine : Machine) (nameWord : Word) :
    assigning? machine nameWord = none ∨
      ∃ (object : ObjectRef) (name : String) (slot : Nat) (word : Word) (value : Value),
        assigning? machine nameWord = some (.assign object name slot word value) := by
  unfold assigning?
  dsimp only
  split
  · split_ifs
    · split
      · cases ObjectRef.layout _ |>.slotOf? _ with
        | none => exact Or.inl rfl
        | some slot => exact Or.inr ⟨_, _, slot, _, _, rfl⟩
      · exact Or.inl rfl
    · exact Or.inl rfl
  · exact Or.inl rfl

/-- An instruction that fails spills an object without fields at most. -/
theorem leavesBehind_of_error {activity final : Activity} {fault : Fault}
    (htop : activity.machine.stack.top ≤ activity.machine.stack.cells.size)
    (herror : Execution.step activity = .error fault final) : activity.LeavesBehind fault final := by
  have happlies := activity.applies_step
  rw [Execution.after, herror] at happlies
  cases hinstruction : activity.frame.routine.unit.instructionAt activity.offset with
  | error found =>
    rw [Execution.step_of_instructionAt_error hinstruction] at herror
    cases herror
    exact (SameLasting.refl _).leavesBehind (by rw [spilled, change?, hinstruction]) _
  | ok instruction =>
    rw [Execution.step_of_instructionAt hinstruction] at herror
    by_cases hnew : ∃ header : Word, instruction = .new header
    · obtain ⟨header, rfl⟩ := hnew
      have hchange : activity.change? = making? activity.machine header := by rw [change?, hinstruction]
      rcases Execution.construct_fails (Execution.construct_of_execute herror) htop with
        ⟨hnone, hsame⟩ | ⟨⟨index, layout, hfields, hsome⟩, hglobals, hfault⟩
      · have hspilled : activity.spilled = [] := by
          rw [spilled, hchange]
          dsimp only at hnone
          rw [hnone]
        exact @SameLasting.leavesBehind activity final ⟨hsame.heap, hsame.globals⟩ hspilled _
      · dsimp only at hsome
        refine ⟨hglobals, ?_, fun _ ↦ hfault⟩
        rw [happlies.contents, spilled, hchange, hsome]
        dsimp only
        rw [if_pos hfields]
        rfl
    · have hnone : ∀ header : Word, instruction ≠ .new header := fun header hsame ↦ hnew ⟨header, hsame⟩
      have hsame := Execution.execute_failsTransient hnone _ _ _ herror
      refine @SameLasting.leavesBehind activity final ⟨hsame.heap, hsame.globals⟩ ?_ _
      -- an assignment of a field spills nothing
      rw [spilled, change?, hinstruction]
      cases instruction with
      | new header => exact absurd rfl (hnone header)
      | put name =>
        dsimp only
        rcases assigning?_cases activity.machine name with hnothing | ⟨object, field, slot, word, value, hassigned⟩
        · rw [hnothing]
        · rw [hassigned]
      | _ => rfl

end Activity

/-! ### Sessions -/

/-- While the code of a command of a session runs, an instruction that fails leaves the globals and the heap as they
were, except that an object without fields, made on a full stack, stays on the heap. -/
theorem Session.failures_keep_lasting {engine : Engine} {known : List Value} {closures : List Closure}
    {command : Command} (hsession : Session engine known closures) (hadmissible : command.Admissible known)
    (haddresses : engine.Addresses known command) (hsmall : engine.StaysSmall command) {activity final : Activity}
    (hvisits : engine.Visits command activity) {fault : Fault}
    (herror : Execution.step activity = .error fault final) : activity.LeavesBehind fault final := by
  obtain ⟨registry, chain, calls, htracked, -⟩ :=
    hsession.consistent.exists_tracked hadmissible haddresses hsmall hvisits
  exact Activity.leavesBehind_of_error htracked.mirrors.realizes.fits.top_le herror

/-! ### An object on a full stack -/

/-- A script that makes an object without fields. -/
def Script.hollow : Script :=
  ⟨⟨[.object [] 1], 1⟩⟩

/-- An engine with room for a frame on its stack, but for no operand. -/
def Engine.tight : Engine :=
  ⟨Machine.standard ⟨64, 5, 5⟩ (Sink.ofBudget none), false⟩

/-- The code of a script that makes an object of a class. -/
def Fragment.hollow (header : Word) : Fragment :=
  [.plain (.new header) 1, .plain .pop 1, .plain (.constant Word.undefined) 1, .plain .ret 1]

open Lowering in
/-- A script that makes an object without fields adds the class of the object to the constants. -/
theorem compileScript_hollow (workspace : Workspace) :
    compileScript false Script.hollow workspace =
      .ok ⟨workspace.nextIdentity + 1, "main",
          (Fragment.hollow (workspace.constants.box (.layout ⟨workspace.nextIdentity, []⟩)).1).assemble 1 1⟩
        ⟨(workspace.constants.box (.layout ⟨workspace.nextIdentity, []⟩)).2, workspace.nextIdentity + 2⟩ := by
  simp [compileScript, compileFunction, Script.hollow, routineOf, SlotTable.allocate, declarationsOf,
    Node.declarations, fieldDeclarations, lowerStatements, lowerNode, lowerFields, SlotTable.receiverName, constant,
    freshIdentity, bind, EStateM.bind, pure, EStateM.pure, Except.bind, Except.pure, statementOf, Node.isStatement,
    undefinedAt, endLine, SlotTable.size, Node.line, firstRepeated?, Fragment.hollow,
    -bind_pure_comp]

section Hollow

variable {machine : Machine} {receiver : Word} {constants table : ConstantTable}

/-- The frame of a script that makes an object of a class that is the first constant. -/
def Frame.hollow (identity : Nat) (word : Word) : Frame :=
  ⟨⟨identity, "main", (Fragment.hollow (Word.constant 1)).assemble 1 1⟩, word⟩

/-- A host begins the script with a frame that fills the stack. -/
theorem Machine.enterFromHost_hollow (hreceiver : constants.box .undefined = (receiver, table)) (identity : Nat)
    (word : Word) :
    Execution.enterFromHost (Frame.hollow identity word) .undefined []
        (machine.inCall (Frame.hollow identity word) constants (Stack.ofSizes 5 5) 0) =
      .ok () (machine.inCall (Frame.hollow identity word) table
        ⟨#[word, receiver, ⟨0⟩, hostReturn, word], 5, 1, 5⟩ 0) := by
  have hfirst : Execution.push word
      (machine.inCall (Frame.hollow identity word) constants (Stack.ofSizes 5 5) 0) =
        .ok () (machine.inCall (Frame.hollow identity word) constants
          ⟨#[word, Word.zero, Word.zero, Word.zero, Word.zero], 1, 0, 5⟩ 0) := rfl
  have hencode : ∀ stack : Stack, Execution.encode .undefined
      (machine.inCall (Frame.hollow identity word) constants stack 0) =
        .ok receiver (machine.inCall (Frame.hollow identity word) table stack 0) := by
    intro stack
    unfold Execution.encode Machine.encode
    dsimp only [Value.inlineWord?, inCall]
    rw [hreceiver]
  rw [Execution.enterFromHost_eq]
  refine (Execution.bind_of_ok hfirst).trans ?_
  rw [Execution.pushAll, bind_assoc, Execution.bind_of_ok (hencode _)]
  rfl

/-- The script makes the object, and then there is no room for the reference to it. -/
theorem Machine.step_hollow (hheap : machine.heap = Heap.ofCapacity 64) {identity : Nat}
    (hlayout : table.entries[1]? = some (.layout ⟨identity, []⟩)) (main : Nat) (word : Word) :
    (∃ final : Activity, Execution.step (machine.inCall (Frame.hollow main word) table
        ⟨#[word, receiver, ⟨0⟩, hostReturn, word], 5, 1, 5⟩ 0) = .error (.stackOverflow 5) final ∧
          final.frame = Frame.hollow main word) ∧
      (machine.inCall (Frame.hollow main word) table
        ⟨#[word, receiver, ⟨0⟩, hostReturn, word], 5, 1, 5⟩ 0).spilled = [Word.constant 1, Heap.freshMark] := by
  have hvalue : ScriptMachine.decode table machine.heap (Word.constant 1) = .ok (.layout ⟨identity, []⟩) :=
    decodeWithin_of_constant? (show table.constant? (Word.constant 1) = _ from hlayout) _
  constructor
  · generalize hstack : Stack.mk #[word, receiver, ⟨0⟩, hostReturn, word] 5 1 5 = filled
    have hfetch : Execution.fetch (machine.inCall (Frame.hollow main word) table filled 0) =
        .ok (.new (Word.constant 1)) (machine.inCall (Frame.hollow main word) table filled 2) := rfl
    have hdecoded : Execution.decode (Word.constant 1) (machine.inCall (Frame.hollow main word) table filled 2) =
        .ok (.layout ⟨identity, []⟩) (machine.inCall (Frame.hollow main word) table filled 2) :=
      Execution.decode_of_ok hvalue
    rw [Execution.step, Execution.bind_of_ok hfetch, Execution.execute, Execution.construct, Execution.classOf,
      bind_assoc, bind_assoc, Execution.bind_of_ok hdecoded, ← hstack]
    obtain ⟨stack, heap, constants, globals, sink, hosts, nextIdentity⟩ := machine
    obtain rfl : heap = Heap.ofCapacity 64 := hheap
    exact ⟨_, rfl, rfl⟩
  · have hinstruction : (Frame.hollow main word).routine.unit.instructionAt 0 = .ok (.new (Word.constant 1)) := rfl
    unfold Activity.spilled Activity.change?
    dsimp only [inCall]
    rw [hinstruction]
    dsimp only
    unfold Activity.making? Machine.decode
    dsimp only
    rw [hvalue, hheap]
    rfl

/-- The tight engine accepts the script. The class of the object is its first constant after undefined. -/
theorem Engine.compileScript_tight : ∃ (identity : Nat) (after : Workspace),
    compileScript Engine.tight.strict Script.hollow
        ⟨Engine.tight.machine.constants, Engine.tight.machine.nextIdentity⟩ =
      .ok (Frame.hollow (identity + 1) Word.zero).routine after ∧
    after.constants.entries = #[.undefined, .layout ⟨identity, []⟩] := by
  obtain ⟨machine, hmachine⟩ : ∃ machine : Machine, machine = Engine.tight.machine := ⟨_, rfl⟩
  have hconstants : machine.constants.entries = #[.undefined] := by
    rw [hmachine]
    rfl
  have hnew : ∀ entry ∈ machine.constants.entries,
      entry.constantKey? ≠ (Value.layout ⟨machine.nextIdentity, []⟩).constantKey? := by
    intro entry hentry
    rw [hconstants] at hentry
    obtain rfl := Array.mem_singleton.mp hentry
    rintro ⟨⟩
  obtain ⟨hword, hentries⟩ := ConstantTable.box_new hnew
  rw [hconstants] at hword hentries
  rw [← hmachine]
  refine ⟨machine.nextIdentity, ⟨(machine.constants.box (.layout ⟨machine.nextIdentity, []⟩)).2,
    machine.nextIdentity + 2⟩, ?_, hentries⟩
  refine (compileScript_hollow ⟨machine.constants, machine.nextIdentity⟩).trans ?_
  rw [hword]
  rfl

/-- Words can number all that the script needs. -/
theorem Engine.addresses_hollow : Engine.tight.Addresses [] (.eval Script.hollow) := by
  obtain ⟨identity, after, hcompiled, hentries⟩ := compileScript_tight
  refine addresses_eval hcompiled ?_ ?_ ?_
  · rw [ConstantTable.size, hentries]
    show 2 < Word.indexLimit
    decide
  · show ((Fragment.hollow (Word.constant 1)).assemble 1 1).code.size < 4294967295
    decide
  · rintro routine (hmem | hknown)
    · rw [hentries] at hmem
      simp at hmem
    · cases hknown

/-- The script begins, and its first instruction fails. -/
theorem Engine.exists_failing_hollow : ∃ (start final : Activity) (identity : Nat) (word : Word),
    Engine.tight.Begins (.eval Script.hollow) start ∧ start.offset = 0 ∧
      Execution.step start = .error (.stackOverflow 5) final ∧ final.frame = Frame.hollow identity word ∧
      start.spilled = [Word.constant 1, Heap.freshMark] := by
  obtain ⟨identity, after, hcompiled, hentries⟩ := compileScript_tight
  have hmain : Engine.tight.runs? (.eval Script.hollow) =
      some ((Frame.hollow (identity + 1) Word.zero).routine, []) := by
    rw [runs?, main?, compile_of_compileScript hcompiled]
    rfl
  obtain ⟨prepared, hprepared⟩ : ∃ prepared : Machine,
      prepared = (Engine.tight.prepared (.eval Script.hollow)).machine := ⟨_, rfl⟩
  obtain ⟨hstack, hheap, htable⟩ : prepared.stack = Stack.ofSizes 5 5 ∧ prepared.heap = Heap.ofCapacity 64 ∧
      prepared.constants = after.constants := by
    rw [hprepared, prepared_eq rfl, compile_of_compileScript hcompiled]
    exact ⟨rfl, rfl, rfl⟩
  rw [← htable] at hentries
  cases hboxed : prepared.constants.box
      (.function (.compiled (Frame.hollow (identity + 1) Word.zero).routine)) with
  | mk word constants =>
  cases hreceiver : constants.box .undefined with
  | mk receiver table =>
  have hlayout : table.entries[1]? = some (.layout ⟨identity, []⟩) := by
    have hfirst := prepared.constants.box_extends
      (.function (.compiled (Frame.hollow (identity + 1) Word.zero).routine))
    have hsecond := constants.box_extends .undefined
    rw [hboxed] at hfirst
    rw [hreceiver] at hsecond
    exact hsecond 1 _ (hfirst 1 _ (by rw [hentries]; rfl))
  obtain ⟨⟨final, hfailed, hframe⟩, hspilled⟩ := @Machine.step_hollow prepared receiver table hheap _ hlayout
    (identity + 1) word
  refine ⟨_, final, identity + 1, word, ⟨_, [], hmain, ?_⟩, rfl, hfailed, hframe, hspilled⟩
  have hentered := prepared.enterFromHost_hollow hreceiver (identity + 1) word
  unfold Machine.Enters Machine.box
  rw [← hprepared, hboxed]
  unfold Machine.inCall at hentered
  rw [← hstack] at hentered
  exact hentered

end Hollow

/-- The script makes an object on a full stack. The command fails, and the object stays on the heap. -/
theorem Session.failures_keep_lasting_hollow :
    Session Engine.tight [] [] ∧ (Command.eval Script.hollow).Admissible [] ∧
      Engine.tight.Addresses [] (.eval Script.hollow) ∧ Engine.tight.StaysSmall (.eval Script.hollow) ∧
      ∃ activity final : Activity, Engine.tight.Visits (.eval Script.hollow) activity ∧
        Execution.step activity = .error (.stackOverflow 5) final ∧
        activity.LeavesBehind (.stackOverflow 5) final ∧
        final.machine.heap.contents = activity.machine.heap.contents ++ [Word.constant 1, Heap.freshMark] := by
  have hsession : Session Engine.tight [] [] := .standard _ _ _
  have hsmall : Engine.tight.StaysSmall (.eval Script.hollow) := fun hlarge ↦ absurd hlarge (by decide)
  have hadmissible : (Command.eval Script.hollow).Admissible [] := trivial
  obtain ⟨start, final, -, -, hbegins, -, hfailed, -, hspilled⟩ := Engine.exists_failing_hollow
  have hvisits : Engine.tight.Visits (.eval Script.hollow) start := ⟨start, hbegins, .refl⟩
  have hleft := hsession.failures_keep_lasting hadmissible Engine.addresses_hollow hsmall hvisits hfailed
  refine ⟨hsession, hadmissible, Engine.addresses_hollow, hsmall, start, final, hvisits, hfailed, hleft, ?_⟩
  rw [hleft.contents, hspilled]

end ScriptMachine
