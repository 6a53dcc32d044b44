import ScriptMachine.Proofs.HeapRows
import ScriptMachine.Proofs.QuietParts

/-!
# What instructions do to the heap

Only two instructions change the heap: one makes an object and the other assigns a field. `Activity.change?` reads
off an activity which change comes with its next instruction, and `Activity.applies_step` is that nothing else
happens, whether the instruction fails or not: constants are only added, and no identity of a function or class is
given away. All other instructions leave the heap alone (`Execution.Spares.execute`).
-/

set_option autoImplicit false
set_option relaxedAutoImplicit false

namespace ScriptMachine

/-! ### Changes -/

/-- A change of the heap. An object of a class is made at an index, or a field of an object is assigned. The words
come with the values that they stand for at the time. -/
inductive HeapChange where
  | make (index : Nat) (layout : Class) (row : HeapRow) (values : List Value)
  | assign (object : ObjectRef) (name : String) (slot : Nat) (word : Word) (value : Value)

namespace HeapChange

/-- The used words of a heap after a change. -/
def contents : HeapChange → List Word → List Word
  | .make _ _ row _, words => words ++ row.words
  | .assign object _ slot word _, words => words.set (object.index.toNat + Heap.headerSize + slot) word

/-- The objects on a heap after a change. -/
def rows : HeapChange → List HeapRow → List HeapRow
  | .make _ _ row _, rows => rows ++ [row]
  | .assign object _ slot word _, rows => HeapRow.assign rows object.index.toNat slot word

end HeapChange

/-- The value of a word, and undefined for a word that cannot be decoded. -/
def Machine.read (machine : Machine) (word : Word) : Value :=
  match machine.decode word with
  | .ok value => value
  | .error _ => .undefined

/-- The words on top of a stack. -/
def Stack.topmost (stack : Stack) (count : Nat) : List Word :=
  stack.slice (stack.top - count) count

@[simp] theorem Stack.length_topmost (stack : Stack) (count : Nat) : (stack.topmost count).length = count := by
  rw [topmost, slice, List.length_map, List.length_range]

namespace Activity

/-- The object that an instruction makes of the words on top of the stack. It needs enough of them, and room on
the heap. -/
def making? (machine : Machine) (header : Word) : Option HeapChange :=
  match machine.decode header with
  | .ok (.layout layout) =>
    let words := machine.stack.topmost layout.fieldCount
    if layout.fieldCount ≤ machine.stack.top ∧
        machine.heap.used + (Heap.headerSize + layout.fieldCount) ≤ machine.heap.capacity then
      some (.make machine.heap.used layout ⟨header, words⟩ (words.map machine.read))
    else none
  | _ => none

/-- The assignment of the word on top of the stack to a field of the object below. The class of the object has to
have the field. -/
def assigning? (machine : Machine) (nameWord : Word) : Option HeapChange :=
  let word := machine.stack.cell (machine.stack.top - 1)
  let receiver := machine.stack.cell (machine.stack.top - 2)
  match machine.decode nameWord with
  | .ok (.text name) =>
    if 2 ≤ machine.stack.top ∧ receiver.reference?.isSome then
      match machine.decode receiver with
      | .ok (.object object) =>
        (object.layout.slotOf? name).map fun slot ↦ .assign object name slot word (machine.read word)
      | _ => none
    else none
  | _ => none

/-- The change of the heap that comes with the next instruction. -/
def change? (activity : Activity) : Option HeapChange :=
  match activity.frame.routine.unit.instructionAt activity.offset with
  | .ok (.new header) => making? activity.machine header
  | .ok (.put name) => assigning? activity.machine name
  | _ => none

/-- An activity with the same heap and maybe more constants, in which no identity was given away. -/
structure Grows (activity later : Activity) : Prop where
  heap : later.machine.heap = activity.machine.heap
  constants : activity.machine.constants.Extends later.machine.constants
  nextIdentity : later.machine.nextIdentity = activity.machine.nextIdentity

theorem Grows.refl (activity : Activity) : activity.Grows activity :=
  ⟨rfl, .refl _, rfl⟩

theorem Grows.trans {first second third : Activity} (hfirst : first.Grows second)
    (hsecond : second.Grows third) : first.Grows third :=
  ⟨hsecond.heap.trans hfirst.heap, hfirst.constants.trans hsecond.constants,
    hsecond.nextIdentity.trans hfirst.nextIdentity⟩

theorem Calm.grows {activity later : Activity} (hcalm : activity.Calm later) : activity.Grows later :=
  ⟨hcalm.heap, hcalm.constants, hcalm.nextIdentity⟩

end Activity

/-! ### Parts of instructions -/

namespace Execution

variable {α β : Type}

/-- Something leaves the heap as it is, and adds nothing but constants. -/
def Spares (action : Execution α) : Prop :=
  ∀ activity : Activity, activity.Grows (action.after activity)

theorem Calm.spares {action : Execution α} (hcalm : Calm action) : Spares action :=
  fun activity ↦ (hcalm activity).grows

theorem Quiet.spares {action : Execution α} (hquiet : Quiet action) : Spares action :=
  hquiet.calm.spares

theorem Looks.spares {action : Execution α} (hlooks : Looks action) : Spares action :=
  hlooks.quiet.spares

theorem Spares.bind {part : Execution α} {rest : α → Execution β} (hpart : Spares part)
    (hrest : ∀ value : α, Spares (rest value)) : Spares (part >>= rest) :=
  after_bind Activity.Grows.trans hpart hrest

/-- All instructions that neither make an object nor assign a field leave the heap as it is. -/
theorem Spares.execute {instruction : Instruction} (hnew : ∀ header : Word, instruction ≠ .new header)
    (hput : ∀ name : Word, instruction ≠ .put name) : Spares (Execution.execute instruction) := by
  cases instruction
  case register name =>
    exact (Looks.nameOf _).spares.bind fun _ ↦ Quiet.pop.spares.bind fun _ ↦ (Looks.decode _).spares.bind fun _ ↦
      Spares.bind (fun _ ↦ ⟨rfl, .refl _, rfl⟩) fun _ ↦ (Looks.pure _).spares
  case new header => exact absurd rfl (hnew header)
  case put name => exact absurd rfl (hput name)
  all_goals exact Calm.spares (calm_execute trivial)

end Execution

/-! ### Making objects and assigning fields -/

namespace Activity

/-- A later activity comes of a change, if there is one. -/
structure Applies (change : Option HeapChange) (activity later : Activity) : Prop where
  contents : later.machine.heap.contents =
    change.elim activity.machine.heap.contents fun change ↦ change.contents activity.machine.heap.contents
  constants : activity.machine.constants.Extends later.machine.constants
  nextIdentity : later.machine.nextIdentity = activity.machine.nextIdentity

variable {activity between later : Activity} {change : Option HeapChange}

theorem Grows.applies (hgrows : activity.Grows later) : activity.Applies none later :=
  ⟨congrArg Heap.contents hgrows.heap, hgrows.constants, hgrows.nextIdentity⟩

theorem Grows.then_applies (hgrows : activity.Grows between) (happlies : between.Applies change later) :
    activity.Applies change later :=
  ⟨hgrows.heap ▸ happlies.contents, hgrows.constants.trans happlies.constants,
    happlies.nextIdentity.trans hgrows.nextIdentity⟩

theorem Applies.then_grows (happlies : activity.Applies change between) (hgrows : between.Grows later) :
    activity.Applies change later :=
  ⟨hgrows.heap ▸ happlies.contents, happlies.constants.trans hgrows.constants,
    hgrows.nextIdentity.trans happlies.nextIdentity⟩

end Activity

namespace Execution

variable {α β : Type} {activity next : Activity} {part : Execution α} {value : α} {fault : Fault}

/-- What follows a change leaves the heap as the change does. -/
theorem applies_bind {change : Option HeapChange} {rest : α → Execution β}
    (happlies : activity.Applies change (part.after activity)) (hrest : ∀ value : α, Spares (rest value)) :
    activity.Applies change ((part >>= rest).after activity) := by
  cases hpart : part activity with
  | ok value next =>
    have hafter : part.after activity = next := by rw [Execution.after, hpart]
    rw [hafter] at happlies
    rw [after_bind_of_ok rest hpart]
    exact happlies.then_grows (hrest value next)
  | error fault next =>
    have hafter : part.after activity = next := by rw [Execution.after, hpart]
    rw [hafter] at happlies
    rwa [after_bind_of_error rest hpart]

/-- What follows the decoding of a word comes only if the word has a value. -/
theorem after_decode_bind (word : Word) (rest : Value → Execution β) (activity : Activity) :
    (decode word >>= rest).after activity =
      match activity.machine.decode word with
      | .ok value => (rest value).after activity
      | .error _ => activity := by
  cases hvalue : activity.machine.decode word with
  | ok found => exact after_bind_of_ok rest (decode_of_ok hvalue)
  | error fault => exact after_bind_of_error rest (decode_of_error hvalue)

/-- The topmost word is taken away if there is one, and the others stay. -/
theorem pop_cases (activity : Activity) :
    (0 < activity.machine.stack.top ∧ ∃ next : Activity,
      pop activity = .ok (activity.machine.stack.cell (activity.machine.stack.top - 1)) next ∧
        activity.Grows next ∧ next.machine.decode = activity.machine.decode ∧
        next.machine.stack = { activity.machine.stack with top := activity.machine.stack.top - 1 }) ∨
      activity.machine.stack.top = 0 ∧ ∃ fault : Fault, pop activity = .error fault activity := by
  by_cases hempty : activity.machine.stack.top = 0
  · exact Or.inr ⟨hempty, _, if_pos hempty⟩
  · exact Or.inl ⟨Nat.pos_of_ne_zero hempty, _, if_neg hempty, ⟨rfl, .refl _, rfl⟩, rfl, rfl⟩

/-- A new object comes behind the used words of the heap if there is room for it. -/
theorem allocate_cases (header : Word) (fields : List Word) (activity : Activity) :
    (activity.machine.heap.used + (Heap.headerSize + fields.length) ≤ activity.machine.heap.capacity ∧
      ∃ (reference : Word) (next : Activity), allocate header fields activity = .ok reference next ∧
        next.machine.constants = activity.machine.constants ∧
        next.machine.nextIdentity = activity.machine.nextIdentity ∧
        next.machine.heap.contents = activity.machine.heap.contents ++ HeapRow.words ⟨header, fields⟩) ∨
    ¬ activity.machine.heap.used + (Heap.headerSize + fields.length) ≤ activity.machine.heap.capacity ∧
      ∃ fault : Fault, allocate header fields activity = .error fault activity := by
  obtain ⟨⟨stack, ⟨capacity, used, words, hused⟩, constants, globals, sink, hosts, nextIdentity⟩, frame,
    offset⟩ := activity
  unfold allocate onMachine Machine.onHeap Heap.allocate
  dsimp only
  by_cases hfits : used + (Heap.headerSize + fields.length) ≤ capacity
  · rw [dif_pos hfits]
    refine Or.inl ⟨hfits, _, _, rfl, rfl, rfl, Heap.contents_storeWords ?_ rfl⟩
    exact congrArg (used + ·) (HeapRow.length_words ⟨header, fields⟩).symm
  · rw [dif_neg hfits]
    exact Or.inr ⟨hfits, _, rfl⟩

/-- A new object is made if there is room for it. -/
theorem applies_allocate_bind (header : Word) (words : List Word) (layout : Class) (values : List Value)
    {rest : Word → Execution β} (hrest : ∀ reference : Word, Spares (rest reference)) (activity : Activity) :
    activity.Applies
      (if activity.machine.heap.used + (Heap.headerSize + words.length) ≤ activity.machine.heap.capacity then
        some (.make activity.machine.heap.used layout ⟨header, words⟩ values)
      else none)
      ((allocate header words >>= rest).after activity) := by
  rcases allocate_cases header words activity with
    ⟨hfits, reference, next, hmade, hconstants, hidentity, hcontents⟩ | ⟨hfull, fault, hrefused⟩
  · rw [if_pos hfits, after_bind_of_ok rest hmade]
    exact Activity.Applies.then_grows ⟨hcontents, hconstants ▸ .refl _, hidentity⟩ (hrest reference next)
  · rw [if_neg hfull, after_bind_of_error rest hrefused]
    exact (Activity.Grows.refl _).applies

/-- Building an object makes it, and does nothing else to the heap. -/
theorem applies_construct (header : Word) (activity : Activity) :
    activity.Applies (Activity.making? activity.machine header) ((construct header).after activity) := by
  unfold construct classOf Activity.making?
  rw [bind_assoc, after_decode_bind]
  cases activity.machine.decode header with
  | error fault => exact (Activity.Grows.refl _).applies
  | ok found =>
    cases found
    case layout layout =>
      dsimp only
      rw [pure_bind, after_get_bind]
      by_cases hfew : activity.machine.stack.top < layout.fieldCount
      · rw [if_pos hfew, if_neg fun hboth ↦ absurd hfew (Nat.not_lt_of_le hboth.1)]
        exact (Activity.Grows.refl _).applies
      · have hbuilt := applies_allocate_bind header (activity.machine.stack.topmost layout.fieldCount) layout
          ((activity.machine.stack.topmost layout.fieldCount).map activity.machine.read)
          (fun reference ↦ ((Quiet.cutStack (activity.machine.stack.top - layout.fieldCount)).bind
            fun _ ↦ Quiet.push reference).spares) activity
        rw [Stack.length_topmost] at hbuilt
        rw [if_neg hfew]
        simp only [Nat.le_of_not_lt hfew, true_and]
        exact hbuilt
    all_goals exact (Activity.Grows.refl _).applies

/-- The field of an object is assigned if its class has the field. -/
theorem applies_writeField (object : ObjectRef) (name : String) (word : Word) (value : Value)
    (activity : Activity) :
    activity.Applies ((object.layout.slotOf? name).map fun slot ↦ .assign object name slot word value)
      ((writeField object name word).after activity) := by
  unfold Execution.after writeField
  cases object.layout.slotOf? name with
  | none => exact (Activity.Grows.refl _).applies
  | some slot => exact ⟨Heap.contents_store _ _ _, .refl _, rfl⟩

/-- A word is that of an object, or it is refused. -/
theorem objectOf_cases (word : Word) (activity : Activity) :
    (∃ object : ObjectRef, word.reference?.isSome ∧ activity.machine.decode word = .ok (.object object) ∧
        objectOf word activity = .ok object activity) ∨
      (word.reference?.isSome → ∀ object : ObjectRef, activity.machine.decode word ≠ .ok (.object object)) ∧
        ∃ fault : Fault, objectOf word activity = .error fault activity := by
  unfold objectOf
  cases word.reference? with
  | none =>
    have hname : ∃ typeName : String, typeNameOf word activity = .ok typeName activity := by
      unfold typeNameOf
      cases activity.machine.decode word <;> exact ⟨_, rfl⟩
    obtain ⟨typeName, hname⟩ := hname
    exact Or.inr ⟨fun hsome ↦ (nomatch hsome), _, bind_of_ok hname⟩
  | some index =>
    cases hvalue : activity.machine.decode word with
    | error fault =>
      exact Or.inr ⟨fun _ _ hobject ↦ (nomatch hobject), fault, bind_of_error (decode_of_error hvalue)⟩
    | ok found =>
      dsimp only
      rw [bind_of_ok (decode_of_ok hvalue)]
      cases found
      case object object => exact Or.inl ⟨object, rfl, rfl, rfl⟩
      all_goals exact Or.inr ⟨fun _ _ hobject ↦ (nomatch hobject), ⟨_, rfl⟩⟩

/-- Assigning a field of an object does nothing else to the heap. -/
theorem applies_assign (nameWord : Word) (activity : Activity) :
    activity.Applies (Activity.assigning? activity.machine nameWord)
      ((execute (.put nameWord)).after activity) := by
  unfold execute nameOf Activity.assigning?
  dsimp only
  rw [bind_assoc, after_decode_bind]
  cases activity.machine.decode nameWord with
  | error fault => exact (Activity.Grows.refl _).applies
  | ok found =>
    cases found
    case text name =>
      dsimp only
      rw [pure_bind]
      rcases pop_cases activity with
        ⟨hpositive, between, hpop, hgrows, hdecode, hstack⟩ | ⟨hempty, fault, hpop⟩
      · rw [after_bind_of_ok _ hpop]
        refine hgrows.then_applies ?_
        have htop : between.machine.stack.top = activity.machine.stack.top - 1 := by rw [hstack]
        have hcell : between.machine.stack.cell = activity.machine.stack.cell := by rw [hstack]; rfl
        rcases pop_cases between with
          ⟨hpositiveAgain, popped, hpopped, hgrowsAgain, hdecodeAgain, -⟩ | ⟨hempty, fault, hpopped⟩
        · rw [after_bind_of_ok _ hpopped, hcell, htop, Nat.sub_sub]
          refine hgrowsAgain.then_applies ?_
          have htwo : 2 ≤ activity.machine.stack.top := by omega
          rcases objectOf_cases (activity.machine.stack.cell (activity.machine.stack.top - (1 + 1))) popped with
            ⟨object, hreference, hobject, hfound⟩ | ⟨hother, fault, hfound⟩
          · rw [hdecodeAgain, hdecode] at hobject
            rw [after_bind_of_ok _ hfound, if_pos ⟨htwo, hreference⟩, hobject]
            exact applies_bind (applies_writeField object name _ _ popped) fun _ ↦ (Looks.pure none).spares
          · rw [after_bind_of_error _ hfound]
            rw [hdecodeAgain, hdecode] at hother
            split_ifs with hboth
            · split
              case h_1 object hobject => exact absurd hobject (hother hboth.2 object)
              case h_2 => exact (Activity.Grows.refl _).applies
            · exact (Activity.Grows.refl _).applies
        · rw [after_bind_of_error _ hpopped, if_neg fun hboth ↦ absurd hboth.1 (by omega)]
          exact (Activity.Grows.refl _).applies
      · rw [after_bind_of_error _ hpop, if_neg fun hboth ↦ absurd hboth.1 (by omega)]
        exact (Activity.Grows.refl _).applies
    all_goals exact (Activity.Grows.refl _).applies

/-- Building an object and assigning a field are the only instructions that change the heap. -/
theorem applies_execute (instruction : Instruction) (activity : Activity) :
    activity.Applies
      (match instruction with
        | .new header => Activity.making? activity.machine header
        | .put name => Activity.assigning? activity.machine name
        | _ => none)
      ((execute instruction).after activity) := by
  cases instruction
  case new header => exact applies_bind (applies_construct header activity) fun _ ↦ (Looks.pure none).spares
  case put name => exact applies_assign name activity
  all_goals exact (Spares.execute (by simp) (by simp) activity).applies

end Execution

/-- All that the next instruction does to the heap, whether it fails or not, is the change of the activity. -/
theorem Activity.applies_step (activity : Activity) :
    activity.Applies activity.change? (Execution.step.after activity) := by
  unfold Activity.change? Execution.after
  cases hinstruction : activity.frame.routine.unit.instructionAt activity.offset with
  | error fault =>
    rw [Execution.step_of_instructionAt_error hinstruction]
    exact (Grows.refl _).applies
  | ok instruction =>
    rw [Execution.step_of_instructionAt hinstruction]
    have happlies := Execution.applies_execute instruction
      { activity with offset := activity.offset + instruction.size }
    cases instruction <;> exact ⟨happlies.contents, happlies.constants, happlies.nextIdentity⟩

/-- Building the first frame of a call, whether it fails or not, leaves the heap as it is and only adds
constants. -/
theorem Machine.grows_entry (machine : Machine) (routine : Routine) (receiver : Value) (arguments : List Value) :
    let boxed := machine.box (.function (.compiled routine))
    Activity.Grows ⟨machine, ⟨routine, boxed.1⟩, 0⟩
      ((Execution.enterFromHost ⟨routine, boxed.1⟩ receiver arguments).after
        ⟨boxed.2, ⟨routine, boxed.1⟩, 0⟩) := by
  have hentered := Execution.Quiet.enterFromHost
    ⟨routine, (machine.box (.function (.compiled routine))).1⟩ receiver arguments
    ⟨(machine.box (.function (.compiled routine))).2,
      ⟨routine, (machine.box (.function (.compiled routine))).1⟩, 0⟩
  have hboxed := machine.constants.box_extends (.function (.compiled routine))
  exact ⟨hentered.heap, hboxed.trans hentered.constants, hentered.nextIdentity⟩

end ScriptMachine
