import ScriptMachine.Proofs.Snapshot

/-!
# Effects on the world

The primitives that reach beyond the stack do to the world of a snapshot what the world says they do:
making an object (`Activity.Realizes.allocate`), reading and writing a field
(`Activity.Realizes.readField`, `Activity.Realizes.writeField`), carrying a native function out
(`Activity.Realizes.applyNative`) and binding a global (`Activity.Realizes.register`). They fail where it
fails, in the same words.
-/

set_option autoImplicit false
set_option relaxedAutoImplicit false

namespace ScriptMachine

/-- Every object has as many fields as its class. -/
def Store.Shaped (records : List Record) : Prop :=
  ∀ record ∈ records, record.fields.length = record.layout.fieldCount

/-- The slot of a field counts among the fields of the class. -/
theorem Class.slotOf?_lt {layout : Class} {name : String} {slot : Nat}
    (hslot : layout.slotOf? name = some slot) : slot < layout.fieldCount := by
  obtain ⟨hinside, -⟩ := List.findIdx?_eq_some_iff_findIdx_eq.mp hslot
  exact hinside

/-- The slot of a field counts among the fields of an object. -/
theorem Store.Shaped.slot_lt {records : List Record} (hshaped : Store.Shaped records) {index : Nat}
    {record : Record} (hrecord : Store.recordAt? records index = some record) {name : String} {slot : Nat}
    (hslot : record.layout.slotOf? name = some slot) : slot < record.fields.length := by
  rw [hshaped record (Store.mem_of_recordAt? hrecord)]
  exact Class.slotOf?_lt hslot

namespace Activity.Realizes

variable {activity : Activity} {snapshot : Snapshot}

/-! ### Objects -/

/-- Making an object answers with a word for it, or fails for want of room. -/
theorem allocate (hrealizes : activity.Realizes snapshot) {header : Word} {layout : Class}
    {words : List Word} {values : List Value}
    (hheader : snapshot.constants.constant? header = some (.layout layout))
    (hwords : snapshot.constants.HoldsAll snapshot.world.store.records words values) :
    match snapshot.world.allocate layout values with
    | .ok (object, world) =>
      ∃ (word : Word) (next : Activity), Execution.allocate header words activity = .ok word next ∧
        next.Realizes { snapshot with world := world } ∧
        Store.KeepsLayouts snapshot.world.store.records world.store.records ∧
        snapshot.constants.value? world.store.records word = some object
    | .error fault => Execution.allocate header words activity = .error fault activity := by
  unfold World.allocate
  dsimp only
  split_ifs with hfits
  · obtain ⟨grown, hmade, hholds, hvalue⟩ := hrealizes.heap.allocate hheader hwords hfits
    refine ⟨_, { activity with machine := { activity.machine with heap := grown } }, ?_, ?_,
      Store.keepsLayouts_append _ _, hvalue⟩
    · simp only [Execution.allocate, Execution.onMachine, Machine.onHeap, hmade]
    · exact ⟨hrealizes.globals, hrealizes.sink, hrealizes.hosts, hholds, hrealizes.constants,
        hrealizes.fits, hrealizes.contents, hrealizes.base, hrealizes.limit, hrealizes.frame,
        hrealizes.offset⟩
  · have hrefused := hrealizes.heap.allocate_refused header hwords hfits
    simp only [Execution.allocate, Execution.onMachine, Machine.onHeap, hrefused]

/-- Reading a field answers with a word for its value. -/
theorem readField (hrealizes : activity.Realizes snapshot) {reference : ObjectRef} {value : Value}
    {name : String}
    (hpresent : (Value.object reference).Present snapshot.world.store.records)
    (hshaped : Store.Shaped snapshot.world.store.records)
    (hundefined : snapshot.constants.entries[0]? = some .undefined)
    (hvalue : snapshot.world.readField (.object reference) name = .ok value) :
    ∃ word : Word, Execution.readField reference name activity = .ok word activity ∧
      snapshot.constants.value? snapshot.world.store.records word = some value := by
  obtain ⟨record, hrecord, hlayout⟩ := Option.map_eq_some_iff.mp hpresent
  unfold World.readField at hvalue
  dsimp only at hvalue
  rw [hrecord] at hvalue
  dsimp only at hvalue
  unfold Execution.readField
  rw [← hlayout]
  split at hvalue
  case h_1 hnone =>
    obtain rfl := Except.ok.inj hvalue
    rw [hnone]
    exact ⟨_, rfl, ConstantTable.value?_undefined _ hundefined⟩
  case h_2 slot hslot =>
    obtain rfl := Except.ok.inj hvalue
    have hinside := hshaped.slot_lt hrecord hslot
    rw [hslot]
    refine ⟨_, rfl, hrealizes.heap.field hrecord ?_⟩
    rw [List.getD_eq_getElem?_getD, List.getElem?_eq_getElem hinside]
    rfl

/-- Writing a field replaces its value, or fails where the class has no such field. -/
theorem writeField (hrealizes : activity.Realizes snapshot) {reference : ObjectRef} {word : Word}
    {value : Value} (name : String)
    (hpresent : (Value.object reference).Present snapshot.world.store.records)
    (hshaped : Store.Shaped snapshot.world.store.records)
    (hvalue : snapshot.constants.value? snapshot.world.store.records word = some value) :
    match snapshot.world.writeField (.object reference) name value with
    | .ok world =>
      ∃ next : Activity, Execution.writeField reference name word activity = .ok () next ∧
        next.Realizes { snapshot with world := world } ∧
        Store.KeepsLayouts snapshot.world.store.records world.store.records
    | .error fault => Execution.writeField reference name word activity = .error fault activity := by
  obtain ⟨record, hrecord, hlayout⟩ := Option.map_eq_some_iff.mp hpresent
  unfold World.writeField Execution.writeField
  dsimp only
  rw [hrecord, ← hlayout]
  dsimp only [Option.bind_some]
  cases hslot : record.layout.slotOf? name with
  | none => rfl
  | some slot =>
    have hinside := hshaped.slot_lt hrecord hslot
    refine ⟨_, rfl, ?_, Store.keepsLayouts_replaceField _ _ _ _⟩
    exact ⟨hrealizes.globals, hrealizes.sink, hrealizes.hosts,
      hrealizes.heap.setField hrecord hinside hvalue, hrealizes.constants, hrealizes.fits,
      hrealizes.contents, hrealizes.base, hrealizes.limit, hrealizes.frame, hrealizes.offset⟩

/-! ### Globals and native functions -/

/-- Reading a global answers with its value. -/
theorem lookup (hrealizes : activity.Realizes snapshot) (name : String) :
    Execution.lookup name activity = .ok (snapshot.world.globals.lookup name) activity := by
  unfold Execution.lookup
  rw [hrealizes.globals]

/-- Binding a global changes the world. -/
theorem register (hrealizes : activity.Realizes snapshot) (name : String) (value : Value) :
    ∃ next : Activity, Execution.register name value activity = .ok () next ∧
      next.Realizes { snapshot with world := snapshot.world.register name value } := by
  refine ⟨_, rfl, ?_, hrealizes.sink, hrealizes.hosts, hrealizes.heap, hrealizes.constants,
    hrealizes.fits, hrealizes.contents, hrealizes.base, hrealizes.limit, hrealizes.frame,
    hrealizes.offset⟩
  dsimp only [Machine.register, World.register]
  rw [hrealizes.globals]

/-- A native function does to the machine what it does to the world. -/
theorem applyNative (hrealizes : activity.Realizes snapshot) (operation : Native) (receiver : Value)
    (arguments : List Value) :
    match World.applyNative operation receiver arguments snapshot.world with
    | .ok value world =>
      ∃ next : Activity, Execution.applyNative operation receiver arguments activity = .ok value next ∧
        next.Realizes { snapshot with world := world }
    | .error fault world =>
      ∃ next : Activity,
        Execution.applyNative operation receiver arguments activity = .error fault next ∧
        next.Realizes { snapshot with world := world } := by
  have hself : activity.Realizes { snapshot with world := snapshot.world } := hrealizes
  have hwritten : ∀ sink : Sink,
      Activity.Realizes { activity with machine := { activity.machine with sink := sink } }
        { snapshot with world := { snapshot.world with sink := sink } } := fun sink ↦
    ⟨hrealizes.globals, rfl, hrealizes.hosts, hrealizes.heap, hrealizes.constants, hrealizes.fits,
      hrealizes.contents, hrealizes.base, hrealizes.limit, hrealizes.frame, hrealizes.offset⟩
  unfold World.applyNative Execution.applyNative Execution.onMachine Machine.applyNative
  cases operation with
  | builtin builtin =>
    simp only [Machine.onSink, hrealizes.sink]
    cases builtin.apply arguments snapshot.world.sink with
    | ok value sink => exact ⟨_, rfl, hwritten sink⟩
    | error fault sink => exact ⟨_, rfl, hwritten sink⟩
  | host position =>
    simp only [hrealizes.hosts]
    cases snapshot.world.hosts[position]? with
    | none => exact ⟨_, rfl, hself⟩
    | some behaviour =>
      dsimp only
      cases behaviour receiver arguments with
      | ok value => exact ⟨_, rfl, hself⟩
      | error fault => exact ⟨_, rfl, hself⟩

end Activity.Realizes

end ScriptMachine
