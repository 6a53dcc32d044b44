import ScriptMachine.Machine.Inspect
import ScriptMachine.Proofs.LikeRuns

/-!
# What a host sees of a machine

Between two calls a host can see the globals, the objects on the heap and the printed text of a machine. Two
machines that do not differ in these look alike (`Machine.LooksLike`). The objects are those of the world that
a machine shows (`Machine.Shows.objects_eq`), so that machines look alike when they show worlds that are alike
and values are only alike when they are equal (`World.Like.looksLike`).

A program is compared with itself through `Registry.equality`, in which every function and every class stands
for itself: its code matches itself (`Registry.matches_self`), and a valid world is like one
with a larger heap or a looser sink (`World.Valid.like_loosened`).
-/

set_option autoImplicit false
set_option relaxedAutoImplicit false

namespace ScriptMachine

/-! ### Machines that look alike -/

/-- A host sees the same globals, objects and printed text in two machines. -/
structure Machine.LooksLike (machine machine' : Machine) : Prop where
  globals : ∀ name : String, machine.globals.lookup name = machine'.globals.lookup name
  bound : ∀ name : String, machine.globals.contains name = machine'.globals.contains name
  objects : machine.objects = machine'.objects
  used : machine.heap.used = machine'.heap.used
  printed : machine.sink.written = machine'.sink.written

/-- The objects of a store as they lie on a heap, from a position on. -/
def Store.heapObjects : (position : Nat) → List Record → List HeapObject
  | _, [] => []
  | position, record :: rest =>
    ⟨⟨UInt32.ofNat position, record.layout⟩, Heap.freshMark, record.fields.map .ok⟩ ::
      heapObjects (position + record.size) rest

/-- The mark of an object is that of every new object. -/
theorem Heap.Holds.mark_eq {heap : Heap} {table : ConstantTable} {store : Store} (hholds : heap.Holds table store)
    {index : UInt32} {record : Record} (hrecord : Store.recordAt? store.records index.toNat = some record) :
    heap.mark index = Heap.freshMark := by
  obtain ⟨before, row, after, hcontents, hindex, -⟩ := hholds.exists_row hrecord
  have hposition : index.toNat + 1 = (before ++ [row.header]).length := by
    rw [List.length_append, List.length_singleton, hindex]
  rw [Heap.mark, hposition]
  refine Heap.load_eq_of_contents _ (row.fields ++ after) ?_
  simpa [HeapRow.words] using hcontents

namespace Machine.Shows

variable {machine : Machine} {world : World}

/-- The fields of an object are read as its values. -/
theorem fieldValues_eq (hshows : machine.Shows world) (hshaped : Store.Shaped world.store.records)
    {index : UInt32} {record : Record} (hrecord : Store.recordAt? world.store.records index.toNat = some record) :
    machine.fieldValues ⟨index, record.layout⟩ = record.fields.map .ok := by
  have hcount := hshaped record (Store.mem_of_recordAt? hrecord)
  rw [Machine.fieldValues, ← hcount]
  refine List.ext_getElem (by simp) fun slot hslot hslot' ↦ ?_
  have hinside : slot < record.fields.length := by simpa using hslot'
  simp only [List.getElem_map, List.getElem_range]
  exact hshows.heap.decode (hshows.heap.field hrecord (List.getElem?_eq_getElem hinside))

/-- A walk through the heap finds the objects of the world one after the other. -/
theorem objectsFrom_eq (hshows : machine.Shows world) (hshaped : Store.Shaped world.store.records) {count : Nat}
    {before after : List Record} (hrecords : world.store.records = before ++ after)
    (hcount : after.length ≤ count) :
    machine.objectsFrom count (Store.totalSize before) =
      (Store.heapObjects (Store.totalSize before) after, none) := by
  have hused : machine.heap.used = Store.totalSize before + Store.totalSize after := by
    rw [hshows.heap.used_eq, hrecords, Store.totalSize_append]
  induction after generalizing before count with
  | nil =>
    cases count with
    | zero => rfl
    | succ count =>
      rw [Store.totalSize_nil, Nat.add_zero] at hused
      rw [Machine.objectsFrom, if_neg (by omega)]
      rfl
  | cons record rest ih =>
    obtain ⟨count, rfl⟩ : ∃ fewer : Nat, count = fewer + 1 := by
      rw [List.length_cons] at hcount
      exact ⟨count - 1, by omega⟩
    have hfound : Store.recordAt? world.store.records (Store.totalSize before) = some record :=
      (Store.recordAt?_eq_some_iff _ _ _).mpr ⟨before, rest, hrecords, rfl⟩
    have hlayout : Store.layoutAt? world.store.records (Store.totalSize before) = some record.layout :=
      congrArg (Option.map Record.layout) hfound
    have hless := hshows.heap.lt_indexLimit_of_layoutAt? hlayout
    have hindex : (UInt32.ofNat (Store.totalSize before)).toNat = Store.totalSize before :=
      UInt32.toNat_ofNat_of_lt' (Nat.lt_trans hless (by decide))
    rw [← hindex] at hlayout hless hfound
    have hdecoded : machine.decode (Word.reference (UInt32.ofNat (Store.totalSize before))) =
        .ok (.object ⟨UInt32.ofNat (Store.totalSize before), record.layout⟩) := by
      refine hshows.heap.decode ?_
      rw [ConstantTable.value?, Word.kind_reference _ hless]
      exact congrArg (Option.map _) hlayout
    have hsize : record.size = Heap.headerSize + record.layout.fieldCount := by
      rw [Record.size, hshaped record (Store.mem_of_recordAt? hfound)]
    have hend : Store.totalSize (before ++ [record]) = Store.totalSize before + record.size := by
      rw [Store.totalSize_append, Store.totalSize_cons, Store.totalSize_nil, Nat.add_zero]
    rw [Store.totalSize_cons] at hused
    have hlater : machine.objectsFrom count (Store.totalSize (before ++ [record])) =
        (Store.heapObjects (Store.totalSize (before ++ [record])) rest, none) := by
      refine ih ?_ (Nat.le_of_succ_le_succ hcount) ?_
      · rw [hrecords, List.append_assoc]
        rfl
      · rw [hend, hused, Nat.add_assoc]
    have hbefore : Store.totalSize before < machine.heap.used := by
      rw [hsize, Heap.headerSize] at hused
      omega
    rw [hend] at hlater
    rw [Machine.objectsFrom, if_pos hbefore, hdecoded]
    dsimp only
    rw [Nat.add_assoc, ← hsize, hlater, hshows.heap.mark_eq hfound, hshows.fieldValues_eq hshaped hfound]
    rfl

/-- The objects on the heap are those of the world. -/
theorem objects_eq (hshows : machine.Shows world) (hshaped : Store.Shaped world.store.records) :
    machine.objects = (Store.heapObjects 0 world.store.records, none) := by
  have hlength : world.store.records.length ≤ machine.heap.used := by
    rw [hshows.heap.used_eq]
    induction world.store.records with
    | nil => exact Nat.le_refl _
    | cons record rest ih =>
      rw [Store.totalSize_cons, List.length_cons, Record.size, Heap.headerSize]
      omega
  exact hshows.objectsFrom_eq hshaped (List.nil_append _).symm hlength

end Machine.Shows

/-! ### Alike worlds that are equal -/

/-- Alike rows are equal when alike members are. -/
theorem eq_of_forall₂ {α : Type} {related : α → α → Prop} (heq : ∀ left right : α, related left right → left = right)
    {left right : List α} (hrelated : List.Forall₂ related left right) : left = right :=
  List.forall₂_eq_eq_eq ▸ hrelated.imp heq

/-- Machines look alike when they show alike worlds and only equal values are alike. -/
theorem World.Like.looksLike {likeness : Likeness} {slack : Slack} {registry : Registry}
    (hexact : likeness.Exact registry) {world world' : World} (hlike : world.Like likeness slack world')
    (hshaped : Store.Shaped world.store.records) {machine machine' : Machine} (hshows : machine.Shows world)
    (hshows' : machine'.Shows world') : machine.LooksLike machine' := by
  have hrecords : world.store.records = world'.store.records := by
    refine eq_of_forall₂ (fun record record' hrecord ↦ ?_) hlike.records
    have hlayout := hexact.eq (.layout hrecord.layout)
    have hfields := eq_of_forall₂ (fun _ _ hvalue ↦ hexact.eq hvalue) hrecord.fields
    cases record
    cases record'
    cases hlayout
    exact congrArg _ hfields
  refine ⟨fun name ↦ ?_, fun name ↦ ?_, ?_, ?_, ?_⟩
  · rw [hshows.globals, hshows'.globals, hexact.eq (hlike.globals name)]
  · rw [hshows.globals, hshows'.globals, hlike.bound name]
  · rw [hshows.objects_eq hshaped, hshows'.objects_eq (hrecords ▸ hshaped), hrecords]
  · rw [hshows.heap.used_eq, hshows'.heap.used_eq, hrecords]
  · rw [hshows.sink, hshows'.sink, hlike.sink.written]

/-! ### A program beside itself -/

/-- Every function and every class of a registry stands for itself. -/
def Registry.equality (registry : Registry) : Likeness where
  functions function function' := function = function' ∧ registry.functions function.identity = some function
  layouts layout layout' := layout = layout' ∧ registry.layouts layout.identity = some layout

namespace Registry

variable {registry : Registry} {known : List Value} {table : ConstantTable} {slack : Slack}

/-- A valid value is like itself, if the classes of all objects are known. -/
theorem like_self {value : Value} {records : List Record} (hvalid : value.Valid registry records)
    (hlayouts : ∀ record ∈ records, registry.layouts record.layout.identity = some record.layout) :
    value.Like registry.equality value := by
  cases value
  case function function => exact .function ⟨rfl, hvalid⟩
  case layout layout => exact .layout ⟨rfl, hvalid⟩
  case object reference =>
    obtain ⟨record, hrecord, hlayout⟩ := Option.map_eq_some_iff.mp hvalid
    refine .object reference.index ⟨rfl, ?_⟩
    rw [← hlayout]
    exact hlayouts record (Store.mem_of_recordAt? hrecord)
  all_goals constructor

/-- Values that are alike in a program and itself are equal. -/
theorem exact_equality (registry : Registry) : registry.equality.Exact registry := by
  refine ⟨fun hlike ↦ ?_, fun hvalid ↦ like_self hvalid (List.forall_mem_nil _)⟩
  cases hlike
  case function hfunctions => rw [hfunctions.1]
  case layout hlayouts => rw [hlayouts.1]
  case object hlayouts => rw [hlayouts.1]
  all_goals rfl

/-- Safe code over valid constants matches itself. -/
theorem matches_self (hvalid : table.Valid registry) {unit : CodeUnit} {offset depth : Nat}
    (hsafe : unit.Safe table offset depth) : unit.Matches registry.equality unit table table offset := by
  induction hsafe with
  | @step offset depth next operation hoperation _ _ _ _ ih =>
    have hoperationValid := CodeUnit.valid_of_operationAt hvalid hoperation
    refine .step hoperation hoperation ?_ rfl rfl ih
    cases operation
    case push value => exact .push (registry.exact_equality.like hoperationValid)
    case new layout => exact .new ⟨rfl, hoperationValid⟩
    all_goals exact .plain trivial

/-- A program does what it does. -/
theorem sound_equality (hvalid : table.Valid registry) (hcode : registry.Verified table) :
    registry.equality.Sound table table where
  functionName hfunctions := congrArg Function.name hfunctions.1
  functionIdentity hfunctions hothers := by rw [hfunctions.1, hothers.1]
  layoutFields hlayouts := congrArg Class.fields hlayouts.1
  layoutIdentity hlayouts hothers := by rw [hlayouts.1, hothers.1]
  native hfunctions := ⟨_, _, hfunctions.1.symm⟩
  compiled hfunctions := ⟨_, hfunctions.1.symm, rfl, rfl, rfl,
    matches_self hvalid (hcode _ _ hfunctions.2).safe⟩

/-- A function of the host that passes on only what it knows answers to itself. -/
theorem polite_like_self {behaviour : HostFunction} (hpolite : behaviour.Polite known)
    (hknown : ∀ value ∈ known, value.Like registry.equality value) :
    behaviour.Like registry.equality behaviour := by
  intro receiver receiver' arguments arguments' hreceiver harguments
  obtain rfl := registry.exact_equality.eq hreceiver
  obtain rfl := eq_of_forall₂ (fun _ _ hvalue ↦ registry.exact_equality.eq hvalue) harguments
  cases hresult : behaviour receiver arguments with
  | error fault => exact .error fault
  | ok value =>
    refine .ok ?_
    rcases hpolite.value receiver arguments value hresult with hscalar | hgiven
    · exact hscalar.like
    · rcases List.mem_append.mp hgiven with hpassed | hold
      · rcases List.mem_cons.mp hpassed with rfl | hargument
        · exact hreceiver
        · exact List.forall₂_same.mp harguments value hargument
      · exact hknown value hold

end Registry

/-- A valid world is like one that differs from it in nothing but a larger heap and a looser sink. -/
theorem World.Valid.like_loosened {world : World} {registry : Registry} {known : List Value} {slack : Slack}
    (hvalid : world.Valid registry known) {capacity : Nat} {sink : Sink} (hcapacity : world.store.capacity ≤ capacity)
    (hsame : ¬ slack.heap → world.store.capacity = capacity) (hsink : Sink.Looser slack.sink world.sink sink) :
    world.Like registry.equality slack ⟨world.globals, ⟨capacity, world.store.records⟩, sink, world.hosts⟩ := by
  have hself : ∀ {value : Value}, value.Valid registry world.store.records → value.Like registry.equality value :=
    fun hvalue ↦ Registry.like_self hvalue hvalid.layouts
  refine ⟨fun name ↦ hself (hvalid.globals name), fun _ ↦ rfl, ?_, hcapacity, hsame, hsink, ?_⟩
  · refine List.forall₂_same.mpr fun record hrecord ↦ ⟨⟨rfl, hvalid.layouts record hrecord⟩, ?_⟩
    exact List.forall₂_same.mpr fun value hvalue ↦ hself (hvalid.fields record hrecord value hvalue)
  · refine List.forall₂_same.mpr fun behaviour hbehaviour ↦ ?_
    exact Registry.polite_like_self (hvalid.hosts behaviour (Array.mem_toList_iff.mp hbehaviour))
      fun value hvalue ↦ hself (hvalid.given value hvalue)

end ScriptMachine
