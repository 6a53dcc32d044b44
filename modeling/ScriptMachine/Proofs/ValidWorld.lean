import ScriptMachine.Proofs.Validity

/-!
# Valid worlds

A world is valid when all its values are, when every object has the fields of its class, and when the
functions of the host are polite: they answer only with values that they were given, and do not raise the
faults of broken code themselves (`HostFunction.Polite`). Whatever a program does with a valid world leaves
it valid and answers with a valid value, and where it fails the fault is none of broken code.
-/

set_option autoImplicit false
set_option relaxedAutoImplicit false

namespace ScriptMachine

/-- A function of the host answers with values that it can come up with, and raises none of the faults of
broken code. -/
structure HostFunction.Polite (known : List Value) (behaviour : HostFunction) : Prop where
  value : ∀ (receiver : Value) (arguments : List Value) (value : Value),
    behaviour receiver arguments = .ok value → value.FromHost (receiver :: arguments ++ known)
  fault : ∀ (receiver : Value) (arguments : List Value) (fault : Fault),
    behaviour receiver arguments = .error fault → ¬ fault.Internal

/-- A function that is polite stays so when its host is given more values. -/
theorem HostFunction.Polite.mono {known more : List Value} (hmore : known ⊆ more)
    {behaviour : HostFunction} (hpolite : HostFunction.Polite known behaviour) :
    HostFunction.Polite more behaviour := by
  refine ⟨fun receiver arguments value hvalue ↦ ?_, hpolite.fault⟩
  rcases hpolite.value receiver arguments value hvalue with hscalar | hmem
  · exact Or.inl hscalar
  · rcases List.mem_append.mp hmem with hgiven | hknown
    · exact Or.inr (List.mem_append_left _ hgiven)
    · exact Or.inr (List.mem_append_right _ (hmore hknown))

/-- All values of a world are valid, given the values that its host has seen. -/
structure World.Valid (world : World) (registry : Registry) (known : List Value) : Prop where
  globals : ∀ name : String, (world.globals.lookup name).Valid registry world.store.records
  layouts : ∀ record ∈ world.store.records,
    registry.layouts record.layout.identity = some record.layout
  shaped : Store.Shaped world.store.records
  fields : ∀ record ∈ world.store.records, ∀ value ∈ record.fields,
    value.Valid registry world.store.records
  given : ∀ value ∈ known, value.Valid registry world.store.records
  hosts : ∀ behaviour ∈ world.hosts, HostFunction.Polite known behaviour
  capacity : world.store.capacity ≤ Word.indexLimit

/-! ### Builtin operations -/

namespace Builtin

/-- Builtin operations other than printing answer with integers, and fail on the arguments alone. -/
theorem combine_cases (operation : Builtin) (left right : Value) :
    (∃ value : Value, operation.combine left right = .ok value ∧ value.IsScalar) ∨
      ∃ fault : Fault, operation.combine left right = .error fault ∧ ¬ fault.Internal := by
  have hargument : ∀ value : Value, (∃ number, integerArgument value = .ok number) ∨
      ∃ fault : Fault, integerArgument value = .error fault ∧ ¬ fault.Internal := by
    intro value
    cases value
    case integer number => exact Or.inl ⟨number, rfl⟩
    all_goals exact Or.inr ⟨_, rfl, by simp [Fault.Internal]⟩
  have harithmetic : ∀ compute : Int64 → Int64 → Except Fault Int64,
      (∀ (x y : Int64) (fault : Fault), compute x y = .error fault → ¬ fault.Internal) →
      (∃ value : Value, arithmetic compute left right = .ok value ∧ value.IsScalar) ∨
        ∃ fault : Fault, arithmetic compute left right = .error fault ∧ ¬ fault.Internal := by
    intro compute hcompute
    unfold arithmetic
    rcases hargument left with ⟨x, hx⟩ | ⟨fault, hfault, hinternal⟩
    · rcases hargument right with ⟨y, hy⟩ | ⟨fault, hfault, hinternal⟩
      · rw [hx, hy]
        cases hresult : compute x y with
        | ok number =>
          exact Or.inl ⟨.integer number, by simp [bind, Except.bind, hresult, pure, Except.pure],
            trivial⟩
        | error fault =>
          exact Or.inr ⟨fault, by simp [bind, Except.bind, hresult], hcompute x y fault hresult⟩
      · rw [hx, hfault]
        exact Or.inr ⟨fault, rfl, hinternal⟩
    · rw [hfault]
      exact Or.inr ⟨fault, rfl, hinternal⟩
  have hdivided : ∀ (compute : Int64 → Int64 → Int64) (x y : Int64) (fault : Fault),
      divided compute x y = .error fault → ¬ fault.Internal := by
    intro compute x y fault hfault
    unfold divided at hfault
    split at hfault
    · obtain rfl := Except.error.inj hfault
      simp [Fault.Internal]
    · cases hfault
  have hcomparison : ∀ test : Ordering → Bool,
      (∃ value : Value, comparison test left right = .ok value ∧ value.IsScalar) ∨
        ∃ fault : Fault, comparison test left right = .error fault ∧ ¬ fault.Internal := by
    intro test
    unfold comparison
    cases hordering : ordering left right with
    | ok order => exact Or.inl ⟨_, rfl, trivial⟩
    | error fault =>
      refine Or.inr ⟨fault, rfl, ?_⟩
      unfold ordering at hordering
      split at hordering
      case h_1 | h_2 => cases hordering
      case h_3 =>
        obtain rfl := Except.error.inj hordering
        simp [Fault.Internal]
  cases operation
  case print => exact Or.inl ⟨_, rfl, trivial⟩
  case equal | unequal => exact Or.inl ⟨_, rfl, trivial⟩
  case add | subtract | multiply => exact harithmetic _ fun _ _ _ hfault ↦ nomatch hfault
  case divide | remainder => exact harithmetic _ (hdivided _)
  case less | atMost | greater | atLeast => exact hcomparison _

/-- Builtin operations answer with values without identity, and raise no fault of broken code. -/
theorem apply_cases (operation : Builtin) (arguments : List Value) (sink : Sink) :
    (∃ (value : Value) (written : Sink), operation.apply arguments sink = .ok value written ∧
        value.IsScalar) ∨
      ∃ (fault : Fault) (written : Sink), operation.apply arguments sink = .error fault written ∧
        ¬ fault.Internal := by
  have hprint : (∃ (value : Value) (written : Sink),
        Builtin.apply .print arguments sink = .ok value written ∧ value.IsScalar) ∨
      ∃ (fault : Fault) (written : Sink), Builtin.apply .print arguments sink = .error fault written ∧
        ¬ fault.Internal := by
    have hrefusal : ¬ Sink.refusal.Internal := by simp [Sink.refusal, Fault.Internal]
    simp only [apply, Sink.printLine, Sink.write, bind, EStateM.bind, pure, EStateM.pure]
    by_cases hline : sink.accepts (printedLine arguments) = true
    · rw [if_pos hline]
      dsimp only
      by_cases hnewline : (sink.take (printedLine arguments)).accepts "\n" = true
      · rw [if_pos hnewline]
        exact Or.inl ⟨_, _, rfl, trivial⟩
      · rw [if_neg hnewline]
        exact Or.inr ⟨_, _, rfl, hrefusal⟩
    · rw [if_neg hline]
      exact Or.inr ⟨_, _, rfl, hrefusal⟩
  by_cases hoperation : operation = .print
  · rw [hoperation]
    exact hprint
  · unfold apply
    split
    case h_1 => exact absurd rfl hoperation
    case h_2 left right _ =>
      rcases combine_cases operation left right with ⟨value, hvalue, hscalar⟩ | ⟨fault, hfault, hinternal⟩
      · rw [hvalue]
        exact Or.inl ⟨value, sink, rfl, hscalar⟩
      · rw [hfault]
        exact Or.inr ⟨fault, sink, rfl, hinternal⟩
    case h_3 => exact Or.inr ⟨_, sink, rfl, by simp [Fault.Internal]⟩

end Builtin

namespace World.Valid

variable {world : World} {registry : Registry} {known : List Value}

/-! ### Globals -/

/-- Binding a valid value keeps a world valid. -/
theorem register (hvalid : world.Valid registry known) (name : String) {value : Value}
    (hvalue : value.Valid registry world.store.records) :
    (world.register name value).Valid registry known := by
  refine ⟨fun read ↦ ?_, hvalid.layouts, hvalid.shaped, hvalid.fields, hvalid.given, hvalid.hosts,
    hvalid.capacity⟩
  unfold World.register
  rw [Globals.lookup_register]
  split
  · exact hvalue
  · exact hvalid.globals read

/-! ### Objects -/

/-- Making an object keeps a world valid, and the object is valid. -/
theorem allocate (hvalid : world.Valid registry known) {layout : Class} {fields : List Value}
    (hlayout : registry.layouts layout.identity = some layout)
    (hfields : ∀ value ∈ fields, value.Valid registry world.store.records)
    (hcount : fields.length = layout.fieldCount) {object : Value} {later : World}
    (hmade : world.allocate layout fields = .ok (object, later)) :
    later.Valid registry known ∧ object.Valid registry later.store.records ∧
      Store.KeepsLayouts world.store.records later.store.records := by
  unfold World.allocate at hmade
  dsimp only at hmade
  split_ifs at hmade with hfits
  obtain ⟨rfl, rfl⟩ := Prod.mk.inj (Except.ok.inj hmade)
  have hkeeps := Store.keepsLayouts_append world.store.records [⟨layout, fields⟩]
  have hstays : ∀ value : Value, value.Valid registry world.store.records →
      value.Valid registry (world.store.records ++ [⟨layout, fields⟩]) :=
    fun value hvalue ↦ hvalue.mono (Registry.Extends.refl registry) hkeeps
  have hcapacity := hvalid.capacity
  refine ⟨⟨fun name ↦ hstays _ (hvalid.globals name), ?_, ?_, ?_,
    fun value hvalue ↦ hstays _ (hvalid.given value hvalue), hvalid.hosts, hcapacity⟩, ?_, hkeeps⟩
  · intro record hrecord
    rcases List.mem_append.mp hrecord with hold | hnew
    · exact hvalid.layouts record hold
    · rw [List.mem_singleton.mp hnew]
      exact hlayout
  · intro record hrecord
    rcases List.mem_append.mp hrecord with hold | hnew
    · exact hvalid.shaped record hold
    · rw [List.mem_singleton.mp hnew]
      exact hcount
  · intro record hrecord value hvalue
    rcases List.mem_append.mp hrecord with hold | hnew
    · exact hstays _ (hvalid.fields record hold value hvalue)
    · rw [List.mem_singleton.mp hnew] at hvalue
      exact hstays _ (hfields value hvalue)
  · have hindex : (UInt32.ofNat (Store.totalSize world.store.records)).toNat =
        Store.totalSize world.store.records := by
      rw [UInt32.toNat_ofNat']
      simp only [Word.indexLimit, Heap.headerSize] at hcapacity hfits
      omega
    simp only [Value.Valid, Value.Present]
    rw [hindex, Store.layoutAt?, Store.recordAt?_append_self]
    rfl

/-- A world without room for an object says so. -/
theorem allocate_fault {layout : Class} {fields : List Value} {fault : Fault}
    (hfailed : world.allocate layout fields = .error fault) : ¬ fault.Internal := by
  unfold World.allocate at hfailed
  dsimp only at hfailed
  split_ifs at hfailed
  obtain rfl := Except.error.inj hfailed
  simp [Fault.Internal]

/-- A field that is read is valid. -/
theorem readField (hvalid : world.Valid registry known) {receiver value : Value} {name : String}
    (hread : world.readField receiver name = .ok value) : value.Valid registry world.store.records := by
  unfold World.readField at hread
  split at hread
  case h_1 reference =>
    split at hread
    case h_1 => obtain rfl := Except.ok.inj hread; trivial
    case h_2 record hrecord =>
      split at hread
      case h_1 => obtain rfl := Except.ok.inj hread; trivial
      case h_2 slot hslot =>
        obtain rfl := Except.ok.inj hread
        have hinside := hvalid.shaped.slot_lt hrecord hslot
        rw [List.getD_eq_getElem?_getD, List.getElem?_eq_getElem hinside]
        exact hvalid.fields record (Store.mem_of_recordAt? hrecord) _ (List.getElem_mem hinside)
  case h_2 => cases hread

/-- Reading a field fails on values that are no objects. -/
theorem readField_fault {receiver : Value} {name : String} {fault : Fault}
    (hfailed : world.readField receiver name = .error fault) : ¬ fault.Internal := by
  unfold World.readField at hfailed
  split at hfailed
  case h_1 =>
    split at hfailed
    case h_1 => cases hfailed
    case h_2 => split at hfailed <;> cases hfailed
  case h_2 =>
    obtain rfl := Except.error.inj hfailed
    simp [Fault.Internal]

/-- Writing a valid value into a field keeps a world valid. -/
theorem writeField (hvalid : world.Valid registry known) {receiver value : Value} {name : String}
    (hvalue : value.Valid registry world.store.records) {later : World}
    (hwritten : world.writeField receiver name value = .ok later) :
    later.Valid registry known ∧ Store.KeepsLayouts world.store.records later.store.records := by
  unfold World.writeField at hwritten
  split at hwritten
  case h_2 => cases hwritten
  case h_1 reference =>
    split at hwritten
    case h_1 => cases hwritten
    case h_2 slot hslot =>
      obtain rfl := Except.ok.inj hwritten
      obtain ⟨record, hrecord, hslot⟩ := Option.bind_eq_some_iff.mp hslot
      obtain ⟨before, after, hrecords, hindex⟩ := (Store.recordAt?_eq_some_iff _ _ _).mp hrecord
      have hkeeps := Store.keepsLayouts_replaceField world.store.records reference.index.toNat slot value
      have hstays : ∀ found : Value, found.Valid registry world.store.records →
          found.Valid registry (Store.replaceField world.store.records reference.index.toNat slot value) :=
        fun found hfound ↦ hfound.mono (Registry.Extends.refl registry) hkeeps
      -- each record has the class and the width of one from before, and only fields that are valid
      have horigin : ∀ later ∈ Store.replaceField world.store.records reference.index.toNat slot value,
          ∃ earlier ∈ world.store.records, later.layout = earlier.layout ∧
            later.fields.length = earlier.fields.length ∧
            ∀ found ∈ later.fields, found ∈ earlier.fields ∨ found = value := by
        intro later hlater
        rw [hrecords, hindex, Store.replaceField_append] at hlater
        rw [hrecords]
        rcases List.mem_append.mp hlater with hbefore | hrest
        · exact ⟨later, List.mem_append_left _ hbefore, rfl, rfl, fun _ hfound ↦ Or.inl hfound⟩
        · rcases List.mem_cons.mp hrest with rfl | hafter
          · exact ⟨record, List.mem_append_right _ List.mem_cons_self, rfl, List.length_set,
              fun _ hfound ↦ List.mem_or_eq_of_mem_set hfound⟩
          · exact ⟨later, List.mem_append_right _ (List.mem_cons_of_mem _ hafter), rfl, rfl,
              fun _ hfound ↦ Or.inl hfound⟩
      refine ⟨⟨fun read ↦ hstays _ (hvalid.globals read), ?_, ?_, ?_,
        fun found hfound ↦ hstays _ (hvalid.given found hfound), hvalid.hosts, hvalid.capacity⟩, hkeeps⟩
      · intro later hlater
        obtain ⟨earlier, hearlier, hlayout, -, -⟩ := horigin later hlater
        rw [hlayout]
        exact hvalid.layouts earlier hearlier
      · intro later hlater
        obtain ⟨earlier, hearlier, hlayout, hwidth, -⟩ := horigin later hlater
        rw [hlayout, hwidth]
        exact hvalid.shaped earlier hearlier
      · intro later hlater found hfound
        obtain ⟨earlier, hearlier, -, -, hfields⟩ := horigin later hlater
        rcases hfields found hfound with hold | rfl
        · exact hstays _ (hvalid.fields earlier hearlier found hold)
        · exact hstays _ hvalue

/-- Writing a field fails on values that are no objects and on unknown fields. -/
theorem writeField_fault {receiver value : Value} {name : String} {fault : Fault}
    (hfailed : world.writeField receiver name value = .error fault) : ¬ fault.Internal := by
  unfold World.writeField at hfailed
  split at hfailed
  case h_1 =>
    split at hfailed
    case h_1 =>
      obtain rfl := Except.error.inj hfailed
      simp [Fault.Internal]
    case h_2 => cases hfailed
  case h_2 =>
    obtain rfl := Except.error.inj hfailed
    simp [Fault.Internal]

/-! ### Native functions -/

/-- Text that is printed leaves a world valid. -/
theorem withSink (hvalid : world.Valid registry known) (sink : Sink) :
    World.Valid { world with sink := sink } registry known :=
  ⟨hvalid.globals, hvalid.layouts, hvalid.shaped, hvalid.fields, hvalid.given, hvalid.hosts,
    hvalid.capacity⟩

/-- A native function keeps a world valid and its objects as they are. It answers with a valid value, or
raises a fault that is none of broken code. -/
theorem applyNative (hvalid : world.Valid registry known) (operation : Native) {receiver : Value}
    {arguments : List Value} (hreceiver : receiver.Valid registry world.store.records)
    (harguments : ∀ value ∈ arguments, value.Valid registry world.store.records) :
    match World.applyNative operation receiver arguments world with
    | .ok value later => later.Valid registry known ∧ later.store = world.store ∧
        value.Valid registry world.store.records
    | .error fault later => later.Valid registry known ∧ later.store = world.store ∧
        ¬ fault.Internal := by
  unfold World.applyNative
  cases operation with
  | builtin builtin =>
    dsimp only
    rcases builtin.apply_cases arguments world.sink with
      ⟨value, sink, happly, hscalar⟩ | ⟨fault, sink, happly, hinternal⟩
    · rw [happly]
      exact ⟨hvalid.withSink sink, rfl, hscalar.valid⟩
    · rw [happly]
      exact ⟨hvalid.withSink sink, rfl, hinternal⟩
  | host position =>
    dsimp only
    cases hposition : world.hosts[position]? with
    | none => exact ⟨hvalid, rfl, trivial⟩
    | some behaviour =>
      have hpolite := hvalid.hosts behaviour (Array.mem_iff_getElem?.mpr ⟨position, hposition⟩)
      dsimp only
      cases hresult : behaviour receiver arguments with
      | ok value =>
        refine ⟨hvalid, rfl, (hpolite.value receiver arguments value hresult).valid fun given hgiven ↦ ?_⟩
        rcases List.mem_append.mp hgiven with hpassed | hknown
        · rcases List.mem_cons.mp hpassed with rfl | hargument
          · exact hreceiver
          · exact harguments given hargument
        · exact hvalid.given given hknown
      | error fault => exact ⟨hvalid, rfl, hpolite.fault receiver arguments fault hresult⟩

end World.Valid

end ScriptMachine
