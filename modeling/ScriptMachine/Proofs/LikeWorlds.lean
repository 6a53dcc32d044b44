import ScriptMachine.Proofs.Likeness
import ScriptMachine.Proofs.ValidWorld

/-!
# What programs do to alike worlds

Two worlds are alike when their globals, objects and printed texts are. The second one may have a larger heap
or a sink that accepts more, as far as a `Slack` allows that (`World.Like`). Everything that a program can do
with a world leads to alike worlds and values in both, or to a fault in the first one that the slack excuses
(`World.Like.allocate`, `World.Like.readField`, `World.Like.writeField`, `World.Like.applyNative`).

`World.Changes` lists what an operation can do to a single world. Only one that binds a name changes the globals.
-/

set_option autoImplicit false
set_option relaxedAutoImplicit false

namespace ScriptMachine

/-- Two rows that are related one by one have related members at every position, or none. -/
theorem rel_getElem?_of_forall₂ {α β : Type} {related : α → β → Prop} {left : List α} {right : List β}
    (hrelated : List.Forall₂ related left right) (position : Nat) :
    Option.Rel related left[position]? right[position]? := by
  induction hrelated generalizing position with
  | nil => exact .none
  | cons hhead _ ih =>
    cases position with
    | zero => exact .some hhead
    | succ position => exact ih position

/-! ### Alike functions of the host -/

/-- Two outcomes are alike values or the same fault. -/
inductive Value.LikeOutcome (likeness : Likeness) : Except Fault Value → Except Fault Value → Prop where
  | ok {value value' : Value} (hvalue : value.Like likeness value') : LikeOutcome likeness (.ok value) (.ok value')
  | error (fault : Fault) : LikeOutcome likeness (.error fault) (.error fault)

/-- Two functions of the host answer alike to alike values. -/
def HostFunction.Like (likeness : Likeness) (behaviour behaviour' : HostFunction) : Prop :=
  ∀ (receiver receiver' : Value) (arguments arguments' : List Value), receiver.Like likeness receiver' →
    List.Forall₂ (Value.Like likeness) arguments arguments' →
    Value.LikeOutcome likeness (behaviour receiver arguments) (behaviour' receiver' arguments')

/-! ### Alike objects -/

/-- Alike classes have the same slots. -/
theorem Likeness.Faithful.slotOf?_eq {likeness : Likeness} (hfaithful : likeness.Faithful)
    {layout layout' : Class} (hlayout : likeness.layouts layout layout') (name : String) :
    layout.slotOf? name = layout'.slotOf? name := by
  rw [Class.slotOf?, Class.slotOf?, hfaithful.layoutFields hlayout]

/-- A value without identity is like itself. -/
theorem Value.IsScalar.like {likeness : Likeness} {value : Value} (hscalar : value.IsScalar) :
    value.Like likeness value := by
  cases value
  case function | layout | object => exact absurd hscalar id
  all_goals constructor

/-- Where alike values or none are found, alike values come of it. -/
theorem Value.Like.getD_undefined {likeness : Likeness} {found found' : Option Value}
    (hfound : Option.Rel (Value.Like likeness) found found') :
    Value.Like likeness (found.getD .undefined) (found'.getD .undefined) := by
  cases hfound with
  | none => exact .undefined
  | some hvalue => exact hvalue

/-- Two objects have alike classes and fields. -/
structure Record.Like (likeness : Likeness) (record record' : Record) : Prop where
  layout : likeness.layouts record.layout record'.layout
  fields : List.Forall₂ (Value.Like likeness) record.fields record'.fields

/-- Objects stay alike when more stands for each other. -/
theorem Record.Like.mono {likeness larger : Likeness} (hwithin : likeness.Within larger) {record record' : Record}
    (hlike : record.Like likeness record') : record.Like larger record' :=
  ⟨hwithin.layouts hlike.layout, hlike.fields.imp fun _ _ hvalue ↦ hvalue.mono hwithin⟩

namespace Store

variable {likeness : Likeness} {records records' : List Record}

/-- Alike objects take up as many words. -/
theorem size_eq_of_like {record record' : Record} (hlike : record.Like likeness record') :
    record.size = record'.size := by
  rw [Record.size, Record.size, hlike.fields.length_eq]

theorem totalSize_eq_of_like (hrecords : List.Forall₂ (Record.Like likeness) records records') :
    totalSize records = totalSize records' := by
  induction hrecords with
  | nil => rfl
  | cons hrecord _ ih => rw [totalSize_cons, totalSize_cons, size_eq_of_like hrecord, ih]

/-- Alike objects stand at the same numbers. -/
theorem recordAt?_like (hrecords : List.Forall₂ (Record.Like likeness) records records') (index : Nat) :
    Option.Rel (Record.Like likeness) (recordAt? records index) (recordAt? records' index) := by
  induction hrecords generalizing index with
  | nil => exact .none
  | cons hrecord _ ih =>
    unfold recordAt?
    rw [size_eq_of_like hrecord]
    split_ifs
    · exact .some hrecord
    · exact .none
    · exact ih _

/-- Objects stay alike when a field is replaced by alike values. -/
theorem replaceField_like (hrecords : List.Forall₂ (Record.Like likeness) records records') (index slot : Nat)
    {value value' : Value} (hvalue : value.Like likeness value') :
    List.Forall₂ (Record.Like likeness) (replaceField records index slot value)
      (replaceField records' index slot value') := by
  induction hrecords generalizing index with
  | nil => exact .nil
  | cons hrecord hrest ih =>
    unfold replaceField
    split_ifs
    · exact .cons ⟨hrecord.layout, forall₂_set hrecord.fields slot hvalue⟩ hrest
    · rw [size_eq_of_like hrecord]
      exact .cons hrecord (ih _)

end Store

/-! ### Alike worlds -/

/-- Two worlds look alike to a program. The second one may have more room on its heap and a looser sink where
that is allowed. -/
structure World.Like (likeness : Likeness) (slack : Slack) (world world' : World) : Prop where
  globals : ∀ name : String, (world.globals.lookup name).Like likeness (world'.globals.lookup name)
  bound : ∀ name : String, world.globals.contains name = world'.globals.contains name
  records : List.Forall₂ (Record.Like likeness) world.store.records world'.store.records
  capacity : world.store.capacity ≤ world'.store.capacity
  sameCapacity : ¬ slack.heap → world.store.capacity = world'.store.capacity
  sink : Sink.Looser slack.sink world.sink world'.sink
  hosts : List.Forall₂ (HostFunction.Like likeness) world.hosts.toList world'.hosts.toList

/-- What an operation can do to the world, given the name that it binds, if it binds one. -/
inductive World.Changes (world : World) : Option String → World → Prop where
  | none (bound : Option String) : Changes world bound world
  | register (name : String) (value : Value) : Changes world (some name) (world.register name value)
  | native (bound : Option String) (operation : Native) (receiver : Value) (arguments : List Value) :
      Changes world bound (state (applyNative operation receiver arguments world))
  | allocate (bound : Option String) {layout : Class} {fields : List Value} {made : Value × World}
      (hmade : world.allocate layout fields = .ok made) : Changes world bound made.2
  | write (bound : Option String) {receiver value : Value} {name : String} {later : World}
      (hwritten : world.writeField receiver name value = .ok later) : Changes world bound later

/-- Making an object changes the objects only. -/
theorem World.exists_store_of_allocate {world : World} {layout : Class} {fields : List Value} {made : Value × World}
    (hmade : world.allocate layout fields = .ok made) : ∃ store : Store, made.2 = { world with store := store } := by
  unfold allocate at hmade
  dsimp only at hmade
  split_ifs at hmade
  cases hmade
  exact ⟨_, rfl⟩

/-- Replacing a field changes the objects only. -/
theorem World.exists_store_of_writeField {world later : World} {receiver value : Value} {name : String}
    (hwritten : world.writeField receiver name value = .ok later) :
    ∃ store : Store, later = { world with store := store } := by
  unfold writeField at hwritten
  split at hwritten
  case h_1 =>
    split at hwritten
    · cases hwritten
    · cases hwritten
      exact ⟨_, rfl⟩
  case h_2 => cases hwritten

/-- A native function changes the sink only, and only adds to the printed text. -/
theorem World.exists_sink_of_applyNative (world : World) (operation : Native) (receiver : Value)
    (arguments : List Value) : ∃ sink : Sink, state (applyNative operation receiver arguments world) =
      { world with sink := sink } ∧ world.sink.Precedes sink := by
  unfold applyNative
  cases operation with
  | builtin builtin =>
    have hprecedes := world.sink.precedes_apply builtin arguments
    dsimp only
    generalize builtin.apply arguments world.sink = result at hprecedes
    cases result <;> exact ⟨_, rfl, hprecedes⟩
  | host position =>
    have hsame : ∃ sink : Sink, world = { world with sink := sink } ∧ world.sink.Precedes sink :=
      ⟨world.sink, rfl, .refl _⟩
    dsimp only
    split
    · exact hsame
    · split <;> exact hsame

namespace World.Changes

variable {world later : World} {bound : Option String}

/-- An operation changes objects and globals and adds to the printed text, and the globals only if it binds a name. -/
theorem exists_parts (hchanges : world.Changes bound later) :
    ∃ (globals : Globals) (store : Store) (sink : Sink), later = ⟨globals, store, sink, world.hosts⟩ ∧
      world.sink.Precedes sink ∧ (bound = Option.none → globals = world.globals) := by
  cases hchanges with
  | none => exact ⟨_, _, _, rfl, .refl _, fun _ ↦ rfl⟩
  | register => exact ⟨_, _, _, rfl, .refl _, by rintro ⟨⟩⟩
  | native _ operation receiver arguments =>
    obtain ⟨sink, hsame, hprecedes⟩ := world.exists_sink_of_applyNative operation receiver arguments
    exact ⟨_, _, sink, hsame, hprecedes, fun _ ↦ rfl⟩
  | allocate _ hmade =>
    obtain ⟨store, hsame⟩ := exists_store_of_allocate hmade
    exact ⟨_, store, _, hsame, .refl _, fun _ ↦ rfl⟩
  | write _ hwritten =>
    obtain ⟨store, hsame⟩ := exists_store_of_writeField hwritten
    exact ⟨_, store, _, hsame, .refl _, fun _ ↦ rfl⟩

/-- An operation only adds to the printed text. -/
theorem precedes (hchanges : world.Changes bound later) : world.sink.Precedes later.sink := by
  obtain ⟨globals, store, sink, rfl, hprecedes, -⟩ := hchanges.exists_parts
  exact hprecedes

/-- An operation installs no function of the host. -/
theorem hosts_eq (hchanges : world.Changes bound later) : later.hosts = world.hosts := by
  obtain ⟨globals, store, sink, rfl, -⟩ := hchanges.exists_parts
  rfl

/-- An operation that binds no name leaves the globals as they are. -/
theorem globals_eq (hchanges : world.Changes Option.none later) : later.globals = world.globals := by
  obtain ⟨globals, store, sink, rfl, -, hglobals⟩ := hchanges.exists_parts
  exact hglobals rfl

end World.Changes

/-- What comes of a native function in two worlds: alike values, the same fault, or a fault in the first one
that is excused. -/
inductive World.Alike (likeness : Likeness) (slack : Slack) :
    EStateM.Result Fault World Value → EStateM.Result Fault World Value → Prop where
  | ok {value value' : Value} {world world' : World} (hworld : world.Like likeness slack world')
      (hvalue : value.Like likeness value') : Alike likeness slack (.ok value world) (.ok value' world')
  | error (fault : Fault) {world world' : World} (hworld : world.Like likeness slack world') :
      Alike likeness slack (.error fault world) (.error fault world')
  | cut {fault : Fault} {world : World} {result : EStateM.Result Fault World Value}
      (hexcused : slack.Excuses fault) (hprecedes : world.sink.Precedes (state result).sink) :
      Alike likeness slack (.error fault world) result

namespace World.Like

variable {likeness : Likeness} {slack : Slack} {world world' : World}

/-- Worlds stay alike when more stands for each other, if their functions of the host do. -/
theorem mono (hlike : world.Like likeness slack world') {larger : Likeness} (hwithin : likeness.Within larger)
    (hhosts : List.Forall₂ (HostFunction.Like larger) world.hosts.toList world'.hosts.toList) :
    world.Like larger slack world' :=
  ⟨fun name ↦ (hlike.globals name).mono hwithin, hlike.bound, hlike.records.imp fun _ _ hrecord ↦ hrecord.mono hwithin,
    hlike.capacity, hlike.sameCapacity, hlike.sink, hhosts⟩

/-- Worlds stay alike when a global is bound to alike values. -/
theorem register (hlike : world.Like likeness slack world') (name : String) {value value' : Value}
    (hvalue : value.Like likeness value') :
    (world.register name value).Like likeness slack (world'.register name value') := by
  refine ⟨fun read ↦ ?_, fun read ↦ ?_, hlike.records, hlike.capacity, hlike.sameCapacity, hlike.sink,
    hlike.hosts⟩
  · rw [World.register, World.register, Globals.lookup_register, Globals.lookup_register]
    split
    · exact hvalue
    · exact hlike.globals read
  · have hbound := hlike.bound read
    simp only [Globals.contains] at hbound
    simp only [World.register, Globals.register, Globals.contains, Std.HashMap.contains_insert, hbound]

/-- Worlds stay alike with alike sinks. -/
theorem withSink (hlike : world.Like likeness slack world') {sink sink' : Sink}
    (hsink : Sink.Looser slack.sink sink sink') :
    World.Like likeness slack { world with sink := sink } { world' with sink := sink' } :=
  ⟨hlike.globals, hlike.bound, hlike.records, hlike.capacity, hlike.sameCapacity, hsink, hlike.hosts⟩

/-- Worlds stay alike with alike objects. -/
theorem withRecords (hlike : world.Like likeness slack world') {records records' : List Record}
    (hrecords : List.Forall₂ (Record.Like likeness) records records') :
    World.Like likeness slack { world with store := { world.store with records := records } }
      { world' with store := { world'.store with records := records' } } :=
  ⟨hlike.globals, hlike.bound, hrecords, hlike.capacity, hlike.sameCapacity, hlike.sink, hlike.hosts⟩

/-! ### Objects -/

/-- Alike objects are made in both worlds, or both heaps are full, or only the first one is. -/
theorem allocate (hlike : world.Like likeness slack world') {layout layout' : Class}
    (hlayout : likeness.layouts layout layout') {fields fields' : List Value}
    (hfields : List.Forall₂ (Value.Like likeness) fields fields') :
    (∃ (object object' : Value) (later later' : World), world.allocate layout fields = .ok (object, later) ∧
        world'.allocate layout' fields' = .ok (object', later') ∧ object.Like likeness object' ∧
        later.Like likeness slack later') ∨
      (∃ fault : Fault, world.allocate layout fields = .error fault ∧
        world'.allocate layout' fields' = .error fault) ∨
      ∃ fault : Fault, world.allocate layout fields = .error fault ∧ slack.Excuses fault := by
  have hused := Store.totalSize_eq_of_like hlike.records
  have hcount := hfields.length_eq
  unfold World.allocate
  dsimp only
  rw [← hused, ← hcount]
  have hcapacity := hlike.capacity
  by_cases hfits : Store.totalSize world.store.records + (Heap.headerSize + fields.length) ≤ world.store.capacity
  · rw [if_pos hfits, if_pos (Nat.le_trans hfits hcapacity)]
    exact Or.inl ⟨_, _, _, _, rfl, rfl, .object _ hlayout,
      hlike.withRecords (List.rel_append hlike.records (.cons ⟨hlayout, hfields⟩ .nil))⟩
  · rw [if_neg hfits]
    by_cases hheap : slack.heap
    · exact Or.inr (Or.inr ⟨_, rfl, hheap⟩)
    · rw [← hlike.sameCapacity hheap, if_neg hfits]
      exact Or.inr (Or.inl ⟨_, rfl, rfl⟩)

/-- Reading a field of alike values has alike outcomes. -/
theorem readField (hlike : world.Like likeness slack world') (hfaithful : likeness.Faithful)
    {receiver receiver' : Value} (hreceiver : receiver.Like likeness receiver') (name : String) :
    Value.LikeOutcome likeness (world.readField receiver name) (world'.readField receiver' name) := by
  cases hreceiver
  case object index _ =>
    unfold World.readField
    dsimp only
    have hrecord := Store.recordAt?_like hlike.records index.toNat
    generalize Store.recordAt? world.store.records index.toNat = found at hrecord
    generalize Store.recordAt? world'.store.records index.toNat = found' at hrecord
    cases hrecord with
    | none => exact .ok .undefined
    | @some record record' hrecord =>
      dsimp only
      rw [← hfaithful.slotOf?_eq hrecord.layout]
      cases record.layout.slotOf? name with
      | none => exact .ok .undefined
      | some slot =>
        refine .ok ?_
        rw [List.getD_eq_getElem?_getD, List.getD_eq_getElem?_getD]
        exact Value.Like.getD_undefined (rel_getElem?_of_forall₂ hrecord.fields slot)
  all_goals exact .error _

/-- Replacing a field of alike values has alike outcomes. -/
theorem writeField (hlike : world.Like likeness slack world') (hfaithful : likeness.Faithful)
    {receiver receiver' value value' : Value} (hreceiver : receiver.Like likeness receiver') (name : String)
    (hvalue : value.Like likeness value') :
    (∃ later later' : World, world.writeField receiver name value = .ok later ∧
        world'.writeField receiver' name value' = .ok later' ∧ later.Like likeness slack later') ∨
      ∃ fault : Fault, world.writeField receiver name value = .error fault ∧
        world'.writeField receiver' name value' = .error fault := by
  cases hreceiver
  case object index _ =>
    unfold World.writeField
    dsimp only
    have hslot : ((Store.recordAt? world.store.records index.toNat).bind
          fun record ↦ record.layout.slotOf? name) =
        (Store.recordAt? world'.store.records index.toNat).bind fun record ↦ record.layout.slotOf? name := by
      have hrecord := Store.recordAt?_like hlike.records index.toNat
      generalize Store.recordAt? world.store.records index.toNat = found at hrecord
      generalize Store.recordAt? world'.store.records index.toNat = found' at hrecord
      cases hrecord with
      | none => rfl
      | some hrecord => exact hfaithful.slotOf?_eq hrecord.layout name
    rw [← hslot]
    split
    · exact Or.inr ⟨_, rfl, rfl⟩
    · exact Or.inl ⟨_, _, rfl, rfl, hlike.withRecords (Store.replaceField_like hlike.records _ _ hvalue)⟩
  all_goals exact Or.inr ⟨_, rfl, rfl⟩

/-! ### Native functions -/

/-- A native function does the same with alike values in both worlds, or the first sink is full. -/
theorem applyNative (hlike : world.Like likeness slack world') (hfaithful : likeness.Faithful)
    (operation : Native) {receiver receiver' : Value} (hreceiver : receiver.Like likeness receiver')
    {arguments arguments' : List Value}
    (harguments : List.Forall₂ (Value.Like likeness) arguments arguments') :
    World.Alike likeness slack (World.applyNative operation receiver arguments world)
      (World.applyNative operation receiver' arguments' world') := by
  unfold World.applyNative
  cases operation with
  | builtin builtin =>
    have happlied := hlike.sink.apply builtin arguments
    dsimp only
    rw [← Builtin.apply_eq_of_like hfaithful builtin harguments]
    have hscalar := builtin.apply_cases arguments world.sink
    generalize builtin.apply arguments world.sink = result at happlied hscalar
    generalize builtin.apply arguments world'.sink = result' at happlied
    cases happlied with
    | ok hsink =>
      obtain ⟨value, later, hsame, hvalue⟩ | ⟨_, _, hother, -⟩ := hscalar
      · cases hsame
        exact .ok (hlike.withSink hsink) hvalue.like
      · cases hother
    | error hsink => exact .error _ (hlike.withSink hsink)
    | cut hallowed hprecedes => cases result' <;> exact .cut hallowed hprecedes
  | host position =>
    have hhost := rel_getElem?_of_forall₂ hlike.hosts position
    simp only [Array.getElem?_toList] at hhost
    dsimp only
    generalize world.hosts[position]? = found at hhost
    generalize world'.hosts[position]? = found' at hhost
    cases hhost with
    | none => exact .ok hlike .undefined
    | @some behaviour behaviour' hbehaviour =>
      have houtcome := hbehaviour receiver receiver' arguments arguments' hreceiver harguments
      dsimp only
      generalize behaviour receiver arguments = outcome at houtcome
      generalize behaviour' receiver' arguments' = outcome' at houtcome
      cases houtcome with
      | ok hvalue => exact .ok hlike hvalue
      | error fault => exact .error fault hlike

end World.Like

end ScriptMachine
