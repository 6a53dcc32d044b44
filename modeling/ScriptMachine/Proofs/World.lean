import Mathlib.Algebra.Order.Ring.Nat
import Mathlib.Tactic.SplitIfs
import ScriptMachine.Machine.Basic

/-!
# What a program can see

A `World` is what outlives a call as a program sees it: globals, objects, printed text, and the native
functions of the host, with values instead of words. Its `Store` is a row of `Record`s, each with its
class and the values of its fields. Records are numbered as if they lay one after the other on a heap of
the same capacity, so that the number of a record is the sum of the sizes of those before it
(`Store.recordAt?_eq_some_iff`).

`World.allocate`, `World.readField`, `World.writeField` and `World.applyNative` are all that a program
can do with the world besides binding and reading globals, and they fail in the words of the language:
a field is read or written on objects only, an unknown field is undefined when it is read and refused
when it is written.
-/

set_option autoImplicit false
set_option relaxedAutoImplicit false

namespace ScriptMachine

/-! ### Records -/

/-- An object with its class and the values of its fields in slot order. -/
structure Record where
  layout : Class
  fields : List Value

/-- The words that an object takes up. -/
def Record.size (record : Record) : Nat :=
  Heap.headerSize + record.fields.length

/-- The objects in the order of their making, and the number of words that they may take up. -/
structure Store where
  capacity : Nat
  records : List Record

namespace Store

/-- The words that several objects take up. -/
def totalSize (records : List Record) : Nat :=
  (records.map Record.size).sum

/-- The object with a number. -/
def recordAt? : List Record → Nat → Option Record
  | [], _ => none
  | record :: rest, index =>
    if index = 0 then some record
    else if index < record.size then none
    else recordAt? rest (index - record.size)

/-- The class of the object with a number. -/
def layoutAt? (records : List Record) (index : Nat) : Option Class :=
  (recordAt? records index).map Record.layout

/-- The objects with one field of one of them replaced. -/
def replaceField : List Record → (index slot : Nat) → Value → List Record
  | [], _, _, _ => []
  | record :: rest, index, slot, value =>
    if index = 0 then { record with fields := record.fields.set slot value } :: rest
    else record :: replaceField rest (index - record.size) slot value

/-! ### Numbers of records -/

@[simp] theorem totalSize_nil : totalSize [] = 0 :=
  rfl

@[simp] theorem totalSize_cons (record : Record) (rest : List Record) :
    totalSize (record :: rest) = record.size + totalSize rest := by
  simp [totalSize]

@[simp] theorem totalSize_append (first second : List Record) :
    totalSize (first ++ second) = totalSize first + totalSize second := by
  simp [totalSize]

/-- The number of an object is the sum of the sizes of the objects before it. -/
theorem recordAt?_eq_some_iff (records : List Record) (index : Nat) (record : Record) :
    recordAt? records index = some record ↔
      ∃ before after, records = before ++ record :: after ∧ index = totalSize before := by
  induction records generalizing index with
  | nil => simp [recordAt?]
  | cons first rest ih =>
    have hpositive : 0 < first.size := by
      simp only [Record.size, Heap.headerSize]
      omega
    constructor
    · intro hsome
      unfold recordAt? at hsome
      split_ifs at hsome with hzero hinside
      · exact ⟨[], rest, by simpa using hsome, by simpa using hzero⟩
      · obtain ⟨before, after, hrest, hindex⟩ := (ih _).mp hsome
        refine ⟨first :: before, after, by simp [hrest], ?_⟩
        rw [totalSize_cons]
        omega
    · rintro ⟨before, after, hrecords, hindex⟩
      cases before with
      | nil =>
        obtain ⟨rfl, -⟩ := List.cons.inj hrecords
        simp [recordAt?, hindex]
      | cons head before =>
        obtain ⟨rfl, hrest⟩ := List.cons.inj hrecords
        rw [totalSize_cons] at hindex
        have hzero : ¬ index = 0 := by omega
        have hinside : ¬ index < first.size := by omega
        rw [recordAt?, if_neg hzero, if_neg hinside]
        exact (ih _).mpr ⟨before, after, hrest, by omega⟩

/-- An object that is found is among the objects. -/
theorem mem_of_recordAt? {records : List Record} {index : Nat} {record : Record}
    (hrecord : recordAt? records index = some record) : record ∈ records := by
  obtain ⟨before, after, rfl, -⟩ := (recordAt?_eq_some_iff _ _ _).mp hrecord
  exact List.mem_append_right _ List.mem_cons_self

/-- The object found at a number takes up words from there on. -/
theorem add_size_le_of_recordAt? {records : List Record} {index : Nat} {record : Record}
    (hrecord : recordAt? records index = some record) :
    index + record.size ≤ totalSize records := by
  obtain ⟨before, after, rfl, rfl⟩ := (recordAt?_eq_some_iff _ _ _).mp hrecord
  simp only [totalSize_append, totalSize_cons]
  omega

/-- New objects come after the others and leave their numbers alone. -/
theorem recordAt?_append {records added : List Record} {index : Nat} {record : Record}
    (hrecord : recordAt? records index = some record) :
    recordAt? (records ++ added) index = some record := by
  obtain ⟨before, after, rfl, rfl⟩ := (recordAt?_eq_some_iff _ _ _).mp hrecord
  exact (recordAt?_eq_some_iff _ _ _).mpr ⟨before, after ++ added, by simp, rfl⟩

/-- The number of the object that is made next. -/
theorem recordAt?_append_self (records : List Record) (record : Record) :
    recordAt? (records ++ [record]) (totalSize records) = some record :=
  (recordAt?_eq_some_iff _ _ _).mpr ⟨records, [], rfl, rfl⟩

/-! ### Replacing a field -/

/-- The object whose field is replaced is the only one that changes. -/
theorem replaceField_append (before after : List Record) (record : Record) (slot : Nat)
    (value : Value) :
    replaceField (before ++ record :: after) (totalSize before) slot value =
      before ++ { record with fields := record.fields.set slot value } :: after := by
  induction before with
  | nil => simp [replaceField]
  | cons first before ih =>
    have hpositive : 0 < first.size := by
      simp only [Record.size, Heap.headerSize]
      omega
    have hzero : ¬ first.size + totalSize before = 0 := by omega
    rw [List.cons_append, totalSize_cons, replaceField, if_neg hzero, Nat.add_sub_cancel_left, ih]
    rfl

/-- Replacing a field keeps the class of every object. -/
theorem layoutAt?_replaceField (records : List Record) (index slot read : Nat) (value : Value) :
    layoutAt? (replaceField records index slot value) read = layoutAt? records read := by
  induction records generalizing index read with
  | nil => rfl
  | cons first rest ih =>
    unfold replaceField layoutAt?
    split_ifs with hzero
    · unfold recordAt?
      have hsize : Record.size { first with fields := first.fields.set slot value } = first.size := by
        simp [Record.size]
      rw [hsize]
      split_ifs <;> rfl
    · unfold recordAt?
      split_ifs
      · rfl
      · rfl
      · exact ih _ _

/-- Every object of some records is among others, with the same number and the same class. -/
def KeepsLayouts (earlier later : List Record) : Prop :=
  ∀ (index : Nat) (layout : Class),
    layoutAt? earlier index = some layout → layoutAt? later index = some layout

theorem KeepsLayouts.refl (records : List Record) : KeepsLayouts records records :=
  fun _ _ hlayout ↦ hlayout

/-- New objects leave the others where they are. -/
theorem keepsLayouts_append (records added : List Record) :
    KeepsLayouts records (records ++ added) := by
  intro index layout hlayout
  obtain ⟨record, hrecord, rfl⟩ := Option.map_eq_some_iff.mp hlayout
  rw [layoutAt?, recordAt?_append hrecord]
  rfl

/-- Replacing a field leaves all objects where they are. -/
theorem keepsLayouts_replaceField (records : List Record) (index slot : Nat) (value : Value) :
    KeepsLayouts records (replaceField records index slot value) :=
  fun read _ hlayout ↦ (layoutAt?_replaceField records index slot read value).trans hlayout

end Store

/-- An object is among some records, with the class that it shows; every other value is anyway. -/
def Value.Present (records : List Record) : Value → Prop
  | .object reference => Store.layoutAt? records reference.index.toNat = some reference.layout
  | _ => True

/-- A value stays present as long as every object stays where it is. -/
theorem Value.Present.mono {earlier later : List Record} (hkeeps : Store.KeepsLayouts earlier later)
    {value : Value} (hpresent : value.Present earlier) : value.Present later := by
  cases value
  case object reference => exact hkeeps _ _ hpresent
  all_goals trivial

/-! ### Worlds -/

/-- What outlives a call, as a program sees it. -/
structure World where
  globals : Globals
  store : Store
  sink : Sink
  hosts : Array HostFunction

/-- Whether a value leads a conditional into its second arm: the integer zero and the truth value false
do. -/
def Value.isFalse : Value → Bool
  | .integer value => value == 0
  | .boolean value => !value
  | _ => false

namespace World

/-- The world in which something ends. -/
def state {ε α : Type} : EStateM.Result ε World α → World
  | .ok _ world => world
  | .error _ world => world

/-- Binds a global. -/
def register (world : World) (name : String) (value : Value) : World :=
  { world with globals := world.globals.register name value }

/-- Makes an object, as long as there is room for it. -/
def allocate (world : World) (layout : Class) (fields : List Value) : Except Fault (Value × World) :=
  let used := Store.totalSize world.store.records
  let size := Heap.headerSize + fields.length
  if used + size ≤ world.store.capacity then
    .ok (.object ⟨UInt32.ofNat used, layout⟩,
      { world with store := { world.store with records := world.store.records ++ [⟨layout, fields⟩] } })
  else .error (.heapExhausted size (world.store.capacity - used))

/-- The value of a field. A field that the class of the object does not have is undefined. -/
def readField (world : World) (receiver : Value) (name : String) : Except Fault Value :=
  match receiver with
  | .object reference =>
    match Store.recordAt? world.store.records reference.index.toNat with
    | none => .ok .undefined
    | some record =>
      match record.layout.slotOf? name with
      | none => .ok .undefined
      | some slot => .ok (record.fields.getD slot .undefined)
  | other => .error (.typeMismatch "object" other.typeName)

/-- Replaces the value of a field, which the class of the object has to have. -/
def writeField (world : World) (receiver : Value) (name : String) (value : Value) :
    Except Fault World :=
  match receiver with
  | .object reference =>
    match (Store.recordAt? world.store.records reference.index.toNat).bind
        fun record ↦ record.layout.slotOf? name with
    | none => .error (.unknownField name)
    | some slot =>
      .ok { world with
        store :=
          { world.store with
            records := Store.replaceField world.store.records reference.index.toNat slot value } }
  | other => .error (.typeMismatch "object" other.typeName)

/-- Carries a native function out, which can print. -/
def applyNative (operation : Native) (receiver : Value) (arguments : List Value) :
    EStateM Fault World Value := fun world ↦
  match operation with
  | .builtin builtin =>
    match builtin.apply arguments world.sink with
    | .ok value sink => .ok value { world with sink := sink }
    | .error fault sink => .error fault { world with sink := sink }
  | .host position =>
    match world.hosts[position]? with
    | none => .ok .undefined world
    | some behaviour =>
      match behaviour receiver arguments with
      | .ok value => .ok value world
      | .error fault => .error fault world

end World

end ScriptMachine
