import ScriptMachine.Proofs.RelinedLowering

/-!
# Lines and the run of a program

Two machines that are equal up to line tables have the same words on their stacks and heaps, and over their constants
these have the same values up to line tables. Every instruction keeps them so (`Execution.relined_step`), with functions
of the host that make no difference between such values, and so does a whole call (`Activity.relined_run`). Only the
place of a fault looks at the line table.

`Engine.lines_ignored` says of two scripts that differ in lines only that they are compiled alike and run alike.
-/

set_option autoImplicit false
set_option relaxedAutoImplicit false

namespace ScriptMachine

/-! ### Machines -/

/-- Two machines are equal up to line tables, and their functions of the host make no difference between values that
are. -/
structure Machine.Relined (machine machine' : Machine) : Prop where
  stack : machine.stack = machine'.stack
  heap : machine.heap = machine'.heap
  constants : machine.constants.Relined machine'.constants
  globals : ∀ name : String, (machine.globals.lookup name).unlined = (machine'.globals.lookup name).unlined
  bound : ∀ name : String, machine.globals.contains name = machine'.globals.contains name
  sink : machine.sink = machine'.sink
  hosts : machine.hosts = machine'.hosts
  nextIdentity : machine.nextIdentity = machine'.nextIdentity
  ignoring : ∀ behaviour ∈ machine.hosts, behaviour.IgnoresLines

/-- Two activities are equal up to line tables. -/
structure Activity.Relined (activity activity' : Activity) : Prop where
  machine : activity.machine.Relined activity'.machine
  routine : activity.frame.routine.unlined = activity'.frame.routine.unlined
  word : activity.frame.word = activity'.frame.word
  offset : activity.offset = activity'.offset

namespace Machine.Relined

variable {machine machine' : Machine}

/-- A machine is equal to itself. -/
theorem refl (hignoring : ∀ behaviour ∈ machine.hosts, behaviour.IgnoresLines) : machine.Relined machine :=
  ⟨rfl, rfl, .refl _, fun _ ↦ rfl, fun _ ↦ rfl, rfl, rfl, rfl, hignoring⟩

/-- Words have the same values up to line tables. -/
theorem decode (hrelined : machine.Relined machine') (word : Word) :
    Value.LikeOutcome .relined (machine.decode word) (machine'.decode word) := by
  unfold Machine.decode
  rw [hrelined.heap]
  exact decode_relined hrelined.constants _ word

/-- Values that are equal up to line tables get the same words. -/
theorem encode (hrelined : machine.Relined machine') {value value' : Value} (hvalue : value.unlined = value'.unlined) :
    (machine.encode value).1 = (machine'.encode value').1 ∧
      (machine.encode value).2.Relined (machine'.encode value').2 := by
  obtain ⟨hword, hconstants⟩ := hrelined.constants.box hvalue
  unfold Machine.encode
  rw [(Value.like_relined_iff.mpr hvalue).inlineWord?_eq]
  cases value'.inlineWord? with
  | some word => exact ⟨rfl, hrelined⟩
  | none => exact ⟨hword, { hrelined with constants := hconstants }⟩

/-- Values that are equal up to line tables get the same constants. -/
theorem box (hrelined : machine.Relined machine') {value value' : Value} (hvalue : value.unlined = value'.unlined) :
    (machine.box value).1 = (machine'.box value').1 ∧ (machine.box value).2.Relined (machine'.box value').2 := by
  obtain ⟨hword, hconstants⟩ := hrelined.constants.box hvalue
  exact ⟨hword, { hrelined with constants := hconstants }⟩

/-- A stack that is cut back keeps machines equal up to line tables. -/
theorem unwind (hrelined : machine.Relined machine') (top base : Nat) :
    (machine.unwind top base).Relined (machine'.unwind top base) := by
  have hstack : (machine.unwind top base).stack = (machine'.unwind top base).stack := by
    simp only [Machine.unwind, hrelined.stack]
  exact { hrelined with stack := hstack }

/-- Binding a global to values that are equal up to line tables keeps machines so. -/
theorem register (hrelined : machine.Relined machine') (name : String) {value value' : Value}
    (hvalue : value.unlined = value'.unlined) :
    (machine.register name value).Relined (machine'.register name value') := by
  refine { hrelined with globals := fun other ↦ ?_, bound := fun other ↦ ?_ }
  · simp only [Machine.register, Globals.lookup_register]
    split_ifs
    · exact hvalue
    · exact hrelined.globals other
  · have hbound := hrelined.bound other
    unfold Globals.contains at hbound
    simp only [Machine.register, Globals.register, Globals.contains, Std.HashMap.contains_insert, hbound]

/-- A native function does the same to values that are equal up to line tables. -/
theorem applyNative (hrelined : machine.Relined machine') (operation : Native) {receiver receiver' : Value}
    {arguments arguments' : List Value} (hreceiver : receiver.unlined = receiver'.unlined)
    (harguments : arguments.map Value.unlined = arguments'.map Value.unlined) :
    EndsTogether Machine.Relined Eq (fun value value' ↦ value.unlined = value'.unlined)
      (Machine.applyNative operation receiver arguments machine)
      (Machine.applyNative operation receiver' arguments' machine') := by
  have hlike := like_of_map_unlined harguments
  cases operation with
  | builtin builtin =>
    have hsink := hrelined.sink
    simp only [Machine.applyNative]
    rw [builtin.apply_eq_of_like Likeness.faithful_relined hlike]
    obtain ⟨stack, heap, constants, globals, sink, hosts, nextIdentity⟩ := machine
    obtain ⟨stack', heap', constants', globals', sink', hosts', nextIdentity'⟩ := machine'
    obtain rfl : sink = sink' := hsink
    simp only [Machine.onSink]
    cases builtin.apply arguments' sink with
    | ok value later => exact .ok rfl { hrelined with sink := rfl }
    | error fault later => exact .error rfl { hrelined with sink := rfl }
  | host position =>
    simp only [Machine.applyNative]
    rw [← hrelined.hosts]
    cases hbehaviour : machine.hosts[position]? with
    | none => exact .ok rfl hrelined
    | some behaviour =>
      have hanswers := hrelined.ignoring behaviour (Array.mem_of_getElem? hbehaviour) receiver receiver' arguments
        arguments' (Value.like_relined_iff.mpr hreceiver) hlike
      dsimp only
      generalize behaviour receiver arguments = result at hanswers
      generalize behaviour receiver' arguments' = result' at hanswers
      cases hanswers with
      | ok hvalue => exact .ok (Value.like_relined_iff.mp hvalue) hrelined
      | error fault => exact .error rfl hrelined

end Machine.Relined

namespace Activity.Relined

variable {activity activity' : Activity}

/-- A change of the stack keeps activities equal up to line tables. -/
theorem mapStack (hrelined : activity.Relined activity') (change : Stack → Stack) :
    (activity.mapStack change).Relined (activity'.mapStack change) :=
  { hrelined with
    machine := { hrelined.machine with stack := congrArg change hrelined.machine.stack } }

/-- A change of the heap keeps activities equal up to line tables. -/
theorem mapHeap (hrelined : activity.Relined activity') (change : Heap → Heap) :
    (activity.mapHeap change).Relined (activity'.mapHeap change) :=
  { hrelined with
    machine := { hrelined.machine with heap := congrArg change hrelined.machine.heap } }

theorem slotCount_eq (hrelined : activity.Relined activity') :
    activity.frame.routine.unit.slotCount = activity'.frame.routine.unit.slotCount :=
  (Routine.unlined_eq_iff.mp hrelined.routine).2.2.2.2

theorem code_eq (hrelined : activity.Relined activity') :
    activity.frame.routine.unit.code = activity'.frame.routine.unit.code :=
  (Routine.unlined_eq_iff.mp hrelined.routine).2.2.1

end Activity.Relined

/-- Code units with the same words have the same instructions. -/
theorem CodeUnit.instructionAt_congr {unit unit' : CodeUnit} (hcode : unit.code = unit'.code) (offset : Nat) :
    unit.instructionAt offset = unit'.instructionAt offset := by
  unfold instructionAt
  rw [hcode]

/-- Frames that are equal up to line tables fail at the same place up to its line. -/
theorem Frame.unlined_locate {frame frame' : Frame} (hroutine : frame.routine.unlined = frame'.routine.unlined)
    (fault : Fault) (offset : Nat) :
    (frame.locate fault offset).unlined = (frame'.locate fault offset).unlined := by
  obtain ⟨-, hname, hcode, -, -⟩ := Routine.unlined_eq_iff.mp hroutine
  have hmnemonic : frame.routine.unit.mnemonicAt offset = frame'.routine.unit.mnemonicAt offset := by
    unfold CodeUnit.mnemonicAt
    rw [hcode]
  unfold Frame.locate LocatedFault.unlined
  rw [hname, hmnemonic]

/-! ### Primitives -/

namespace Execution

variable {α β : Type}

/-- Two parts of a call do the same up to line tables. -/
abbrev Relined (answers : α → α → Prop) (part part' : Execution α) : Prop :=
  ActsTogether Activity.Relined Eq answers part part'

/-- Both parts answer with values that are equal up to line tables. -/
abbrev SameValue (part part' : Execution Value) : Prop :=
  Relined (fun value value' ↦ value.unlined = value'.unlined) part part'

theorem relined_get : Relined Activity.Relined get get :=
  fun _ _ hrelined ↦ .ok hrelined hrelined

theorem relined_set {activity activity' : Activity} (hrelined : activity.Relined activity') :
    Relined Eq (set activity : Execution PUnit) (set activity') :=
  fun _ _ _ ↦ .ok rfl hrelined

theorem relined_modify {change change' : Activity → Activity}
    (hchange : ∀ activity activity' : Activity, activity.Relined activity' →
      (change activity).Relined (change' activity')) :
    Relined Eq (modify change : Execution PUnit) (modify change') :=
  fun activity activity' hrelined ↦ .ok rfl (hchange activity activity' hrelined)

theorem relined_push (word : Word) : Relined Eq (push word) (push word) := by
  intro activity activity' hrelined
  unfold push
  rw [hrelined.machine.stack]
  split_ifs
  · exact .ok rfl (hrelined.mapStack _)
  · exact .error rfl hrelined

theorem relined_pop : Relined Eq pop pop := by
  intro activity activity' hrelined
  unfold pop
  rw [hrelined.machine.stack]
  split_ifs
  · exact .error rfl hrelined
  · exact .ok rfl (hrelined.mapStack _)

theorem relined_peek : Relined Eq peek peek := by
  intro activity activity' hrelined
  unfold peek
  rw [hrelined.machine.stack]
  split_ifs
  · exact .error rfl hrelined
  · exact .ok rfl hrelined

theorem relined_readSlot (slot : Nat) : Relined Eq (readSlot slot) (readSlot slot) := by
  intro activity activity' hrelined
  unfold readSlot
  rw [hrelined.machine.stack]
  exact .ok rfl hrelined

theorem relined_writeSlot (slot : Nat) (word : Word) : Relined Eq (writeSlot slot word) (writeSlot slot word) :=
  fun _ _ hrelined ↦ .ok rfl (hrelined.mapStack _)

theorem relined_cutStack (top : Nat) : Relined Eq (cutStack top) (cutStack top) :=
  fun _ _ hrelined ↦ .ok rfl (hrelined.mapStack _)

theorem relined_jump (target : Nat) : Relined Eq (jump target) (jump target) :=
  fun _ _ hrelined ↦ .ok rfl { hrelined with offset := rfl }

theorem relined_slotOf (operand : UInt32) : Relined Eq (slotOf operand) (slotOf operand) := by
  intro activity activity' hrelined
  unfold slotOf
  dsimp only
  rw [hrelined.slotCount_eq]
  split_ifs
  · exact .ok rfl hrelined
  · exact .error rfl hrelined

theorem relined_fetch : Relined Eq fetch fetch := by
  intro activity activity' hrelined
  unfold fetch
  rw [CodeUnit.instructionAt_congr hrelined.code_eq, hrelined.offset]
  cases activity'.frame.routine.unit.instructionAt activity'.offset with
  | error fault => exact .error rfl hrelined
  | ok instruction => exact .ok rfl { hrelined with offset := rfl }

/-! ### Words and values -/

theorem relined_decode (word : Word) : SameValue (decode word) (decode word) := by
  intro activity activity' hrelined
  have hdecoded := hrelined.machine.decode word
  unfold decode ofExcept
  generalize activity.machine.decode word = result at hdecoded
  generalize activity'.machine.decode word = result' at hdecoded
  cases hdecoded with
  | ok hvalue => exact .ok (Value.like_relined_iff.mp hvalue) hrelined
  | error fault => exact .error rfl hrelined

theorem relined_decodeAll (words : List Word) :
    Relined (fun values values' ↦ values.map Value.unlined = values'.map Value.unlined) (decodeAll words)
      (decodeAll words) := by
  induction words with
  | nil => exact .pure rfl
  | cons word rest ih =>
    refine (relined_decode word).bind fun value value' hvalue ↦ ?_
    refine ih.bind fun values values' hvalues ↦ .pure ?_
    rw [List.map_cons, List.map_cons, hvalue, hvalues]

theorem relined_encode {value value' : Value} (hvalue : value.unlined = value'.unlined) :
    Relined Eq (encode value) (encode value') := by
  intro activity activity' hrelined
  obtain ⟨hword, hmachine⟩ := hrelined.machine.encode hvalue
  exact .ok hword { hrelined with machine := hmachine }

/-- A part that goes on with the value of a word does the same with values that are alike. -/
theorem relined_decode_bind {answers : β → β → Prop} {rest rest' : Value → Execution β} (word : Word)
    (hrest : ∀ value value' : Value, value.Like .relined value' → Relined answers (rest value) (rest' value')) :
    Relined answers (decode word >>= rest) (decode word >>= rest') :=
  (relined_decode word).bind fun value value' hvalue ↦ hrest value value' (Value.like_relined_iff.mpr hvalue)

theorem relined_nameOf (word : Word) : Relined Eq (nameOf word) (nameOf word) := by
  refine relined_decode_bind word fun value value' hvalue ↦ ?_
  cases hvalue
  case text content => exact .pure rfl
  all_goals exact .throw rfl

theorem relined_functionOf (word : Word) :
    Relined (fun callee callee' ↦ callee.unlined = callee'.unlined) (functionOf word) (functionOf word) := by
  refine relined_decode_bind word fun value value' hvalue ↦ ?_
  cases hvalue
  case function hfunctions => exact .pure hfunctions
  all_goals exact .throw rfl

theorem relined_classOf (word : Word) : Relined Eq (classOf word) (classOf word) := by
  refine relined_decode_bind word fun value value' hvalue ↦ ?_
  cases hvalue
  case layout hlayouts => exact .pure hlayouts
  all_goals exact .throw rfl

theorem relined_typeNameOf (word : Word) : Relined Eq (typeNameOf word) (typeNameOf word) := by
  intro activity activity' hrelined
  have hdecoded := hrelined.machine.decode word
  unfold typeNameOf
  generalize activity.machine.decode word = result at hdecoded
  generalize activity'.machine.decode word = result' at hdecoded
  cases hdecoded with
  | ok hvalue => exact .ok hvalue.typeName_eq hrelined
  | error fault => exact .ok rfl hrelined

theorem relined_objectOf (word : Word) : Relined Eq (objectOf word) (objectOf word) := by
  unfold objectOf
  cases word.reference? with
  | some index =>
    refine relined_decode_bind word fun value value' hvalue ↦ ?_
    cases hvalue
    case object first second index hlayouts =>
      obtain rfl : first = second := hlayouts
      exact .pure rfl
    all_goals exact .throw rfl
  | none =>
    refine (relined_typeNameOf word).bind ?_
    rintro typeName _ rfl
    exact .throw rfl

theorem relined_isFalse (word : Word) : Relined Eq (isFalse word) (isFalse word) := by
  intro activity activity' hrelined
  have hconstant : ∀ index : UInt32, activity.machine.constants.get? index = some (.boolean false) ↔
      activity'.machine.constants.get? index = some (.boolean false) := by
    intro index
    have hentries := hrelined.machine.constants.rel_entries index.toNat
    unfold ConstantTable.get?
    generalize activity.machine.constants.entries[index.toNat]? = entry at hentries
    generalize activity'.machine.constants.entries[index.toNat]? = entry' at hentries
    cases hentries with
    | none => rfl
    | some hvalue => cases hvalue <;> simp
  unfold isFalse
  simp only [hconstant]
  exact .ok rfl hrelined

/-! ### Calls -/

theorem relined_enter {routine routine' : Routine} (hroutine : routine.unlined = routine'.unlined)
    (argumentCount : Nat) (returnOffset caller : Word) :
    Relined Eq (enter routine argumentCount returnOffset caller)
      (enter routine' argumentCount returnOffset caller) := by
  intro activity activity' hrelined
  obtain ⟨-, hname, -, hparameters, hslots⟩ := Routine.unlined_eq_iff.mp hroutine
  have hframe : ∀ (stack : Stack) (base : Nat), stack.enterFrame base routine.unit returnOffset caller =
      stack.enterFrame base routine'.unit returnOffset caller := by
    intro stack base
    unfold Stack.enterFrame
    rw [hparameters, hslots]
  unfold enter
  dsimp only
  rw [hname, hparameters, hslots, hrelined.machine.stack]
  split_ifs
  · exact .error rfl hrelined
  · exact .error rfl hrelined
  · simp only [hframe]
    exact .ok rfl (hrelined.mapStack _)
  · exact .error rfl hrelined

theorem relined_applyNative (operation : Native) {receiver receiver' : Value} {arguments arguments' : List Value}
    (hreceiver : receiver.unlined = receiver'.unlined)
    (harguments : arguments.map Value.unlined = arguments'.map Value.unlined) :
    SameValue (applyNative operation receiver arguments) (applyNative operation receiver' arguments') := by
  intro activity activity' hrelined
  have hends := hrelined.machine.applyNative operation hreceiver harguments
  unfold applyNative onMachine
  dsimp only
  generalize Machine.applyNative operation receiver arguments activity.machine = result at hends
  generalize Machine.applyNative operation receiver' arguments' activity'.machine = result' at hends
  cases hends with
  | ok hvalue hmachine => exact .ok hvalue ⟨hmachine, hrelined.routine, hrelined.word, hrelined.offset⟩
  | error hfault hmachine => exact .error hfault ⟨hmachine, hrelined.routine, hrelined.word, hrelined.offset⟩

theorem relined_call (argumentCount : Nat) : Relined Eq (call argumentCount) (call argumentCount) := by
  intro activity activity' hrelined
  unfold call
  dsimp only
  rw [hrelined.machine.stack, hrelined.offset, hrelined.word]
  split_ifs
  · exact .error rfl hrelined
  · refine ActsTogether.bind (relined_functionOf _) (fun callee callee' hcallee ↦ ?_) activity activity' hrelined
    cases callee with
    | native identity name operation =>
      cases callee' with
      | compiled routine' => cases hcallee
      | native identity' name' operation' =>
        cases hcallee
        refine (relined_decode _).bind fun receiver receiver' hreceiver ↦ ?_
        refine (relined_decodeAll _).bind fun arguments arguments' harguments ↦ ?_
        refine (relined_applyNative operation hreceiver harguments).bind fun result result' hresult ↦ ?_
        refine (relined_encode hresult).bind ?_
        rintro word _ rfl
        exact (relined_cutStack _).bind fun _ _ _ ↦ relined_push word
    | compiled routine =>
      cases callee' with
      | native identity' name' operation' => cases hcallee
      | compiled routine' =>
        have hroutine : routine.unlined = routine'.unlined := Function.compiled.inj hcallee
        refine (relined_enter hroutine _ _ _).bind fun _ _ _ ↦ relined_modify fun entered entered' hentered ↦ ?_
        exact { hentered with routine := hroutine, word := rfl, offset := rfl }

/-- Both parts answer with values that are equal up to line tables, or both with none. -/
abbrev SameResult (part part' : Execution (Option Value)) : Prop :=
  Relined (fun result result' ↦ result.map Value.unlined = result'.map Value.unlined) part part'

theorem relined_leave : SameResult leave leave := by
  unfold leave
  refine relined_pop.bind ?_
  rintro result _ rfl
  refine relined_get.bind fun activity activity' hrelined ↦ ?_
  dsimp only
  rw [hrelined.slotCount_eq, hrelined.machine.stack]
  refine (relined_set (hrelined.mapStack _)).bind fun _ _ _ ↦ ?_
  split_ifs
  · refine (relined_decode result).bind fun value value' hvalue ↦ .pure ?_
    exact congrArg some hvalue
  · refine (relined_functionOf _).bind fun callee callee' hcallee ↦ ?_
    cases callee with
    | native identity name operation =>
      cases callee' with
      | compiled routine' => cases hcallee
      | native identity' name' operation' => exact .throw rfl
    | compiled routine =>
      cases callee' with
      | native identity' name' operation' => cases hcallee
      | compiled routine' =>
        refine (relined_modify fun left left' hleft ↦ ?_).bind fun _ _ _ ↦ ?_
        · exact { hleft with routine := Function.compiled.inj hcallee, word := rfl, offset := rfl }
        · exact (relined_push result).bind fun _ _ _ ↦ .pure rfl

/-! ### Objects and globals -/

theorem relined_allocate (classWord : Word) (fields : List Word) :
    Relined Eq (allocate classWord fields) (allocate classWord fields) := by
  intro activity activity' hrelined
  have hheap := hrelined.machine.heap
  obtain ⟨⟨stack, heap, constants, globals, sink, hosts, nextIdentity⟩, frame, offset⟩ := activity
  obtain ⟨⟨stack', heap', constants', globals', sink', hosts', nextIdentity'⟩, frame', offset'⟩ := activity'
  obtain rfl : heap = heap' := hheap
  simp only [allocate, onMachine, Machine.onHeap]
  cases Heap.allocate classWord fields heap with
  | ok reference later => exact .ok rfl { hrelined with machine := { hrelined.machine with heap := rfl } }
  | error fault later => exact .error rfl { hrelined with machine := { hrelined.machine with heap := rfl } }

theorem relined_construct (classWord : Word) : Relined Eq (construct classWord) (construct classWord) := by
  unfold construct
  refine (relined_classOf classWord).bind ?_
  rintro shape _ rfl
  refine relined_get.bind fun activity activity' hrelined ↦ ?_
  dsimp only
  rw [hrelined.machine.stack]
  split_ifs
  · exact .throw rfl
  · refine (relined_allocate _ _).bind ?_
    rintro reference _ rfl
    exact (relined_cutStack _).bind fun _ _ _ ↦ relined_push reference

theorem relined_readField (object : ObjectRef) (name : String) :
    Relined Eq (readField object name) (readField object name) := by
  intro activity activity' hrelined
  unfold readField
  rw [hrelined.machine.heap]
  cases object.layout.slotOf? name with
  | some slot => exact .ok rfl hrelined
  | none => exact .ok rfl hrelined

theorem relined_writeField (object : ObjectRef) (name : String) (word : Word) :
    Relined Eq (writeField object name word) (writeField object name word) := by
  intro activity activity' hrelined
  unfold writeField
  cases object.layout.slotOf? name with
  | some slot => exact .ok rfl (hrelined.mapHeap _)
  | none => exact .error rfl hrelined

theorem relined_lookup (name : String) : SameValue (lookup name) (lookup name) :=
  fun _ _ hrelined ↦ .ok (hrelined.machine.globals name) hrelined

theorem relined_register (name : String) {value value' : Value} (hvalue : value.unlined = value'.unlined) :
    Relined Eq (register name value) (register name value') :=
  fun _ _ hrelined ↦ .ok rfl { hrelined with machine := hrelined.machine.register name hvalue }

/-! ### Instructions -/

/-- What has no result to hand on. -/
theorem bind_none {part part' : Execution Unit} (hpart : Relined Eq part part') :
    SameResult (do part; return none) (do part'; return none) :=
  hpart.bind fun _ _ _ ↦ .pure rfl

/-- Every instruction does the same up to line tables. -/
theorem relined_execute (instruction : Instruction) : SameResult (execute instruction) (execute instruction) := by
  cases instruction <;> rw [execute]
  case constant word => exact bind_none (relined_push word)
  case lookup word =>
    refine (relined_nameOf word).bind ?_
    rintro name _ rfl
    refine (relined_lookup name).bind fun value value' hvalue ↦ (relined_encode hvalue).bind ?_
    rintro found _ rfl
    exact bind_none (relined_push found)
  case register word =>
    refine (relined_nameOf word).bind ?_
    rintro name _ rfl
    refine relined_pop.bind ?_
    rintro top _ rfl
    exact (relined_decode top).bind fun value value' hvalue ↦ bind_none (relined_register name hvalue)
  case load operand =>
    refine (relined_slotOf operand).bind ?_
    rintro slot _ rfl
    refine (relined_readSlot slot).bind ?_
    rintro word _ rfl
    exact bind_none (relined_push word)
  case store operand =>
    refine (relined_slotOf operand).bind ?_
    rintro slot _ rfl
    refine relined_pop.bind ?_
    rintro word _ rfl
    exact bind_none (relined_writeSlot slot word)
  case duplicate =>
    refine relined_peek.bind ?_
    rintro word _ rfl
    exact bind_none (relined_push word)
  case pop => exact relined_pop.bind fun _ _ _ ↦ .pure rfl
  case swap =>
    refine relined_pop.bind ?_
    rintro upper _ rfl
    refine relined_pop.bind ?_
    rintro lower _ rfl
    exact (relined_push upper).bind fun _ _ _ ↦ bind_none (relined_push lower)
  case call argumentCount => exact bind_none (relined_call argumentCount.toNat)
  case ret => exact relined_leave
  case goto target => exact bind_none (relined_jump target.toNat)
  case jumpIfFalse target =>
    refine relined_pop.bind ?_
    rintro condition _ rfl
    refine (relined_isFalse condition).bind ?_
    rintro holds _ rfl
    cases holds with
    | true => exact bind_none (relined_jump target.toNat)
    | false => exact .pure rfl
  case new classWord => exact bind_none (relined_construct classWord)
  case get word =>
    refine (relined_nameOf word).bind ?_
    rintro name _ rfl
    refine relined_pop.bind ?_
    rintro top _ rfl
    refine (relined_objectOf top).bind ?_
    rintro object _ rfl
    refine (relined_readField object name).bind ?_
    rintro found _ rfl
    exact bind_none (relined_push found)
  case put word =>
    refine (relined_nameOf word).bind ?_
    rintro name _ rfl
    refine relined_pop.bind ?_
    rintro value _ rfl
    refine relined_pop.bind ?_
    rintro top _ rfl
    refine (relined_objectOf top).bind ?_
    rintro object _ rfl
    exact bind_none (relined_writeField object name value)

/-- A step does the same up to line tables. -/
theorem relined_step : SameResult step step := by
  refine relined_fetch.bind ?_
  rintro instruction _ rfl
  exact relined_execute instruction

/-! ### Calls by the host -/

theorem relined_pushAll {values values' : List Value}
    (hvalues : values.map Value.unlined = values'.map Value.unlined) :
    Relined Eq (pushAll values) (pushAll values') := by
  induction values generalizing values' with
  | nil =>
    rw [List.map_nil, eq_comm, List.map_eq_nil_iff] at hvalues
    rw [hvalues]
    exact .pure rfl
  | cons value rest ih =>
    rw [List.map_cons, eq_comm, List.map_eq_cons_iff] at hvalues
    obtain ⟨value', rest', rfl, hvalue, hrest⟩ := hvalues
    refine (relined_encode hvalue.symm).bind ?_
    rintro word _ rfl
    exact (relined_push word).bind fun _ _ _ ↦ ih hrest.symm

theorem relined_enterFromHost {routine routine' : Routine} (hroutine : routine.unlined = routine'.unlined)
    (word : Word) {receiver receiver' : Value} (hreceiver : receiver.unlined = receiver'.unlined)
    {arguments arguments' : List Value} (harguments : arguments.map Value.unlined = arguments'.map Value.unlined) :
    Relined Eq (enterFromHost ⟨routine, word⟩ receiver arguments)
      (enterFromHost ⟨routine', word⟩ receiver' arguments') := by
  have hlength : arguments.length = arguments'.length := by
    have hlengths := congrArg List.length harguments
    rwa [List.length_map, List.length_map] at hlengths
  unfold enterFromHost
  refine (relined_push word).bind fun _ _ _ ↦ (relined_encode hreceiver).bind ?_
  rintro receiverWord _ rfl
  refine (relined_push receiverWord).bind fun _ _ _ ↦ (relined_pushAll harguments).bind fun _ _ _ ↦ ?_
  rw [hlength]
  exact relined_enter hroutine _ _ _

end Execution

/-! ### Runs -/

/-- Two calls come to values that are equal up to line tables, or to faults that are equal up to the line. -/
inductive CallOutcome.Relined : CallOutcome → CallOutcome → Prop where
  | value {value value' : Value} {machine machine' : Machine} (hvalue : value.unlined = value'.unlined)
      (hmachine : machine.Relined machine') : Relined (.ok value, machine) (.ok value', machine')
  | fault {located located' : LocatedFault} {machine machine' : Machine}
      (hlocated : located.unlined = located'.unlined) (hmachine : machine.Relined machine') :
      Relined (.error located, machine) (.error located', machine')

/-- Activities that are equal up to line tables run alike for any number of steps. -/
theorem Activity.relined_run (steps : Nat) {activity activity' : Activity} (hrelined : activity.Relined activity') :
    Option.Rel CallOutcome.Relined (activity.run steps) (activity'.run steps) := by
  induction steps generalizing activity activity' with
  | zero => exact .none
  | succ steps ih =>
    have hstep := Execution.relined_step activity activity' hrelined
    unfold run
    dsimp only
    rw [hrelined.offset]
    generalize Execution.step activity = result at hstep
    generalize Execution.step activity' = result' at hstep
    cases hstep with
    | @error fault _ next next' hfault hnext =>
      obtain rfl := hfault
      exact .some (.fault (Frame.unlined_locate hnext.routine fault _) hnext.machine)
    | @ok answer answer' next next' hanswers hnext =>
      cases answer with
      | none =>
        cases answer' with
        | some value' => cases hanswers
        | none => exact ih hnext
      | some value =>
        cases answer' with
        | none => cases hanswers
        | some value' => exact .some (.value (Option.some.inj hanswers) hnext.machine)

namespace Machine.Relined

variable {machine machine' : Machine}

theorem invokeRoutine (hrelined : machine.Relined machine') (steps : Nat) {routine routine' : Routine}
    (hroutine : routine.unlined = routine'.unlined) {receiver receiver' : Value}
    (hreceiver : receiver.unlined = receiver'.unlined) {arguments arguments' : List Value}
    (harguments : arguments.map Value.unlined = arguments'.map Value.unlined) :
    Option.Rel CallOutcome.Relined (machine.invokeRoutine steps routine receiver arguments)
      (machine'.invokeRoutine steps routine' receiver' arguments') := by
  have hfunction : (Value.function (.compiled routine)).unlined = (Value.function (.compiled routine')).unlined :=
    congrArg (fun found ↦ Value.function (.compiled found)) hroutine
  have hbox := hrelined.box hfunction
  unfold Machine.invokeRoutine
  dsimp only
  rw [hrelined.stack]
  generalize machine.box (.function (.compiled routine)) = made at hbox
  generalize machine'.box (.function (.compiled routine')) = made' at hbox
  obtain ⟨word, boxed⟩ := made
  obtain ⟨word', boxed'⟩ := made'
  obtain ⟨hword, hboxed⟩ := hbox
  obtain rfl : word = word' := hword
  have hentered := Execution.relined_enterFromHost hroutine word hreceiver harguments
    ⟨boxed, ⟨routine, word⟩, 0⟩ ⟨boxed', ⟨routine', word⟩, 0⟩ ⟨hboxed, hroutine, rfl, rfl⟩
  dsimp only
  generalize Execution.enterFromHost ⟨routine, word⟩ receiver arguments ⟨boxed, ⟨routine, word⟩, 0⟩ = result at hentered
  generalize Execution.enterFromHost ⟨routine', word⟩ receiver' arguments' ⟨boxed', ⟨routine', word⟩, 0⟩ = result'
    at hentered
  cases hentered with
  | @error fault _ entered entered' hfault hactivity =>
    obtain rfl := hfault
    obtain ⟨-, hname, -⟩ := Routine.unlined_eq_iff.mp hroutine
    rw [hname]
    exact .some (.fault rfl (hactivity.machine.unwind _ _))
  | @ok _ _ entered entered' _ hactivity =>
    have hrun := Activity.relined_run steps hactivity
    dsimp only
    generalize entered.run steps = outcome at hrun
    generalize entered'.run steps = outcome' at hrun
    cases hrun with
    | none => exact .none
    | some houtcome =>
      cases houtcome with
      | value hvalue hmachine => exact .some (.value hvalue hmachine)
      | fault hlocated hmachine => exact .some (.fault hlocated (hmachine.unwind _ _))

/-- Functions that are equal up to line tables are called alike. -/
theorem invoke (hrelined : machine.Relined machine') (steps : Nat) {callee callee' : Function}
    (hcallee : callee.unlined = callee'.unlined) {receiver receiver' : Value}
    (hreceiver : receiver.unlined = receiver'.unlined) {arguments arguments' : List Value}
    (harguments : arguments.map Value.unlined = arguments'.map Value.unlined) :
    Option.Rel CallOutcome.Relined (machine.invoke steps callee receiver arguments)
      (machine'.invoke steps callee' receiver' arguments') := by
  cases callee with
  | native identity name operation =>
    cases callee' with
    | compiled routine' => cases hcallee
    | native identity' name' operation' =>
      cases hcallee
      have hends := hrelined.applyNative operation hreceiver harguments
      unfold Machine.invoke
      dsimp only
      generalize Machine.applyNative operation receiver arguments machine = result at hends
      generalize Machine.applyNative operation receiver' arguments' machine' = result' at hends
      cases hends with
      | ok hvalue hmachine => exact .some (.value hvalue hmachine)
      | error hfault hmachine =>
        obtain rfl := hfault
        exact .some (.fault rfl hmachine)
  | compiled routine =>
    cases callee' with
    | native identity' name' operation' => cases hcallee
    | compiled routine' =>
      exact hrelined.invokeRoutine steps (Function.compiled.inj hcallee) hreceiver harguments

end Machine.Relined

/-! ### Engines -/

/-- An error with line zero. -/
def EngineError.unlined : EngineError → EngineError
  | .compile error => .compile error.unlined
  | .runtime located => .runtime located.unlined
  | error => error

/-- Two engines are equal up to line tables. -/
structure Engine.Relined (engine engine' : Engine) : Prop where
  machine : engine.machine.Relined engine'.machine
  strict : engine.strict = engine'.strict

/-- Two evaluations come to values that are equal up to line tables, or to errors that are equal up to the line. -/
inductive Engine.Outcome.Relined : Outcome → Outcome → Prop where
  | value {value value' : Value} {engine engine' : Engine} (hvalue : value.unlined = value'.unlined)
      (hengine : engine.Relined engine') : Relined (.ok value, engine) (.ok value', engine')
  | error {error error' : EngineError} {engine engine' : Engine} (herror : error.unlined = error'.unlined)
      (hengine : engine.Relined engine') : Relined (.error error, engine) (.error error', engine')

namespace Engine.Relined

variable {engine engine' : Engine}

/-- Engines that are equal up to line tables evaluate scripts alike that differ in lines only. -/
theorem eval (hrelined : engine.Relined engine') (steps : Nat) {script script' : Script}
    (hscript : script.unlined = script'.unlined) :
    Option.Rel Outcome.Relined (engine.eval steps script) (engine'.eval steps script') := by
  have hcompiled := compileScript_relined engine'.strict hscript
    (⟨hrelined.machine.constants, hrelined.machine.nextIdentity⟩ :
      Workspace.Relined ⟨engine.machine.constants, engine.machine.nextIdentity⟩
        ⟨engine'.machine.constants, engine'.machine.nextIdentity⟩)
  unfold Engine.eval Engine.compile Machine.compileWith
  rw [hrelined.strict]
  dsimp only
  generalize compileScript engine'.strict script ⟨engine.machine.constants, engine.machine.nextIdentity⟩ = result
    at hcompiled
  generalize compileScript engine'.strict script' ⟨engine'.machine.constants, engine'.machine.nextIdentity⟩ = result'
    at hcompiled
  cases hcompiled with
  | error hfault hafter =>
    refine .some (.error (congrArg EngineError.compile hfault) ⟨?_, rfl⟩)
    exact { hrelined.machine with constants := hafter.constants, nextIdentity := hafter.nextIdentity }
  | @ok main main' after after' hmain hafter =>
    have hmachine : Machine.Relined
        { engine.machine with constants := after.constants, nextIdentity := after.nextIdentity }
        { engine'.machine with constants := after'.constants, nextIdentity := after'.nextIdentity } :=
      { hrelined.machine with constants := hafter.constants, nextIdentity := hafter.nextIdentity }
    have hmainFunction : (Function.compiled main).unlined = (Function.compiled main').unlined :=
      congrArg Function.compiled hmain
    have hinvoked := hmachine.invoke steps hmainFunction (rfl : Value.undefined.unlined = Value.undefined.unlined)
      (rfl : ([] : List Value).map Value.unlined = [].map Value.unlined)
    unfold Machine.runMain
    dsimp only
    generalize Machine.invoke steps (.compiled main) .undefined []
      { engine.machine with constants := after.constants, nextIdentity := after.nextIdentity } = outcome at hinvoked
    generalize Machine.invoke steps (.compiled main') .undefined []
      { engine'.machine with constants := after'.constants, nextIdentity := after'.nextIdentity } = outcome' at hinvoked
    cases hinvoked with
    | none => exact .none
    | some houtcome =>
      cases houtcome with
      | value hvalue hafterwards => exact .some (.value hvalue ⟨hafterwards, rfl⟩)
      | fault hlocated hafterwards =>
        exact .some (.error (congrArg EngineError.runtime hlocated) ⟨hafterwards, rfl⟩)

end Engine.Relined

/-- Source lines make no difference. Two scripts that differ in lines only are compiled from the same workspace, in
either mode, to the same function up to its line table and to constants that are equal up to line tables, or are refused
with the same error up to its line. Evaluated by the same engine, whose functions of the host make no difference
between functions that are equal up to line tables, they come to values and errors that are equal up to lines, with the
same stack, heap and printed text, and with constants and globals that are equal up to line tables, or neither comes to
an end within the number of steps. -/
theorem Engine.lines_ignored {script script' : Script} (hscript : script.unlined = script'.unlined) :
    (∀ (strict : Bool) (workspace : Workspace),
      EndsTogether Workspace.Relined (fun fault fault' ↦ fault.unlined = fault'.unlined)
        (fun main main' ↦ main.unlined = main'.unlined)
        (compileScript strict script workspace) (compileScript strict script' workspace)) ∧
    ∀ (engine : Engine) (steps : Nat), (∀ behaviour ∈ engine.machine.hosts, behaviour.IgnoresLines) →
      Option.Rel Outcome.Relined (engine.eval steps script) (engine.eval steps script') :=
  ⟨fun strict workspace ↦ compileScript_relined strict hscript (.refl workspace),
    fun _ steps hignoring ↦ Engine.Relined.eval ⟨.refl hignoring, rfl⟩ steps hscript⟩

/-- A script that prints a text, with everything on one line. -/
def Script.printing (line : UInt32) : Script :=
  ⟨⟨[.call (.access "print" line) [.literal (.text "a") line] line], line⟩⟩

theorem Engine.lines_ignored_printing :
    (Script.printing 1).unlined = (Script.printing 7).unlined ∧
      EndsTogether Workspace.Relined (fun fault fault' ↦ fault.unlined = fault'.unlined)
        (fun main main' ↦ main.unlined = main'.unlined)
        (compileScript true (Script.printing 1) ⟨.empty, 0⟩) (compileScript true (Script.printing 7) ⟨.empty, 0⟩) ∧
      Option.Rel Outcome.Relined
        (Engine.eval 50 (Script.printing 1) ⟨Machine.standard Limits.standard (Sink.ofBudget none), false⟩)
        (Engine.eval 50 (Script.printing 7) ⟨Machine.standard Limits.standard (Sink.ofBudget none), false⟩) := by
  have hscript : (Script.printing 1).unlined = (Script.printing 7).unlined := rfl
  obtain ⟨hcompiled, hevaluated⟩ := Engine.lines_ignored hscript
  refine ⟨hscript, hcompiled true ⟨.empty, 0⟩, hevaluated _ 50 fun behaviour hmem ↦ ?_⟩
  exact absurd hmem (Array.not_mem_empty behaviour)

end ScriptMachine
