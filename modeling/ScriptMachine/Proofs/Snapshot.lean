import Mathlib.Tactic.SplitIfs
import ScriptMachine.Proofs.CallStack
import ScriptMachine.Proofs.StackContents

/-!
# Snapshots of the running machine

A `Snapshot` is a machine in the middle of a call as its parts are seen from outside: the world, the
constants, the words in use on the stack, and the running frame. `Activity.Realizes` says that an activity
is the one of a snapshot. Every primitive of the machine is then a change of the snapshot alone: pushing
appends a word (`Activity.Realizes.push`), popping takes the last one away (`Activity.Realizes.pop`),
decoding answers with the value that a word holds (`Activity.Realizes.decode`), and encoding answers with
a word for the value that the constants carry (`Activity.Realizes.encode`).
-/

set_option autoImplicit false
set_option relaxedAutoImplicit false

namespace ScriptMachine

/-! ### Sequences of primitives -/

namespace Execution

variable {α β : Type}

/-- What follows something that succeeds. -/
theorem bind_of_ok {first : Execution α} {rest : α → Execution β} {activity next : Activity}
    {value : α} (hfirst : first activity = .ok value next) :
    (first >>= rest) activity = rest value next := by
  simp only [bind, EStateM.bind, hfirst]

/-- What follows something that fails. -/
theorem bind_of_error {first : Execution α} {rest : α → Execution β} {activity next : Activity}
    {fault : Fault} (hfirst : first activity = .error fault next) :
    (first >>= rest) activity = .error fault next := by
  simp only [bind, EStateM.bind, hfirst]

/-- What follows something that comes down to something else. -/
theorem bind_of_eq {first other : Execution α} {rest : α → Execution β} {activity reached : Activity}
    (hfirst : first activity = other reached) :
    (first >>= rest) activity = (other >>= rest) reached := by
  simp only [bind, EStateM.bind, hfirst]

variable {activity : Activity} {fault : Fault}

/-- A word that leads to a value is decoded. -/
theorem decode_of_ok {word : Word} {value : Value} (hdecoded : activity.machine.decode word = .ok value) :
    decode word activity = .ok value activity := by
  unfold decode ofExcept
  rw [hdecoded]

/-- A word that leads to no value is refused. -/
theorem decode_of_error {word : Word} (hrefused : activity.machine.decode word = .error fault) :
    decode word activity = .error fault activity := by
  unfold decode ofExcept
  rw [hrefused]

/-- A step carries out the instruction that comes next, and the code goes on behind it. -/
theorem step_of_instructionAt {instruction : Instruction}
    (hinstruction : activity.frame.routine.unit.instructionAt activity.offset = .ok instruction) :
    step activity = execute instruction { activity with offset := activity.offset + instruction.size } := by
  have hfetch : fetch activity =
      .ok instruction { activity with offset := activity.offset + instruction.size } := by
    rw [fetch, hinstruction]
  exact bind_of_ok hfetch

/-- A step fails where there is no instruction. -/
theorem step_of_instructionAt_error
    (hinstruction : activity.frame.routine.unit.instructionAt activity.offset = .error fault) :
    step activity = .error fault activity := by
  have hfetch : fetch activity = .error fault activity := by rw [fetch, hinstruction]
  exact bind_of_error hfetch

end Execution

/-! ### Small integers -/

namespace Word

/-- The word zero is the only one whose small integer is zero. -/
theorem eq_zero_iff_of_kind {word : Word} {number : UInt32}
    (hkind : word.kind = .smallInteger number) :
    word = zero ↔ Int64.ofNat number.toNat = 0 := by
  unfold kind at hkind
  split_ifs at hkind with heven htag
  obtain rfl := Kind.smallInteger.inj hkind
  have hbound := word.bits.toNat_lt
  have hhalf : (word.bits / 2).toNat = word.bits.toNat / 2 := by simp
  have hparity : word.bits.toNat % 2 = 0 := by simpa using congrArg UInt32.toNat heven
  have hint : (Int64.ofNat (word.bits / 2).toNat).toInt = ((word.bits.toNat / 2 : Nat) : Int) := by
    rw [Int64.toInt_ofNat_of_lt (by omega), hhalf]
  constructor
  · rintro rfl
    rfl
  · intro hzero
    rw [hzero] at hint
    have hbits : word.bits = 0 := by
      apply UInt32.toNat_inj.mp
      have hnothing : (0 : Int64).toInt = 0 := rfl
      rw [UInt32.toNat_zero]
      omega
    exact congrArg Word.mk hbits

/-- The word of an integer holds that integer. -/
theorem kind_of_ofInteger? {value : Int64} {word : Word} (hword : ofInteger? value = some word) :
    ∃ number : UInt32, word.kind = .smallInteger number ∧ Int64.ofNat number.toNat = value := by
  unfold ofInteger? at hword
  split_ifs at hword with hsmall
  obtain rfl := Option.some.inj hword
  simp only [smallIntegerLimit] at hsmall
  have hnumber : (UInt32.ofNat value.toInt.toNat).toNat = value.toInt.toNat := by
    rw [UInt32.toNat_ofNat']
    omega
  refine ⟨_, kind_smallInteger _ (by rw [hnumber, smallIntegerLimit]; omega), ?_⟩
  apply Int64.toInt_inj.mp
  rw [hnumber, Int64.toInt_ofNat_of_lt (by omega)]
  omega

end Word

/-! ### Snapshots -/

/-- A machine in the middle of a call, seen from outside. -/
structure Snapshot where
  world : World
  constants : ConstantTable
  limit : Nat
  contents : List Word
  base : Nat
  frame : Frame
  offset : Nat

/-- A machine in the middle of a call has the parts of a snapshot. -/
structure Activity.Realizes (activity : Activity) (snapshot : Snapshot) : Prop where
  globals : activity.machine.globals = snapshot.world.globals
  sink : activity.machine.sink = snapshot.world.sink
  hosts : activity.machine.hosts = snapshot.world.hosts
  heap : activity.machine.heap.Holds snapshot.constants snapshot.world.store
  constants : activity.machine.constants = snapshot.constants
  fits : activity.machine.stack.Fits
  contents : activity.machine.stack.contents = snapshot.contents
  base : activity.machine.stack.base = snapshot.base
  limit : activity.machine.stack.limit = snapshot.limit
  frame : activity.frame = snapshot.frame
  offset : activity.offset = snapshot.offset

namespace Activity.Realizes

variable {activity : Activity} {snapshot : Snapshot}

/-- The top of the stack counts the words in use. -/
theorem top_eq (hrealizes : activity.Realizes snapshot) :
    activity.machine.stack.top = snapshot.contents.length := by
  rw [← hrealizes.contents, hrealizes.fits.length_contents]

/-- The words in use are no more than the limit of the stack. -/
theorem length_le_limit (hrealizes : activity.Realizes snapshot) :
    snapshot.contents.length ≤ snapshot.limit := by
  rw [← hrealizes.top_eq, ← hrealizes.limit]
  exact Nat.le_trans hrealizes.fits.top_le hrealizes.fits.size_le

/-- An activity with another stack has a snapshot with other words in use. -/
theorem mapStack (hrealizes : activity.Realizes snapshot) {change : Stack → Stack}
    {contents : List Word} {base : Nat} (hfits : (change activity.machine.stack).Fits)
    (hcontents : (change activity.machine.stack).contents = contents)
    (hbase : (change activity.machine.stack).base = base)
    (hlimit : (change activity.machine.stack).limit = activity.machine.stack.limit) :
    (activity.mapStack change).Realizes { snapshot with contents := contents, base := base } :=
  ⟨hrealizes.globals, hrealizes.sink, hrealizes.hosts, hrealizes.heap, hrealizes.constants, hfits,
    hcontents, hbase, hlimit.trans hrealizes.limit, hrealizes.frame, hrealizes.offset⟩

/-! ### The operand stack -/

/-- Pushing appends a word, or there is no room for it. -/
theorem push (hrealizes : activity.Realizes snapshot) (word : Word) :
    (∃ next : Activity, Execution.push word activity = .ok () next ∧
        next.Realizes { snapshot with contents := snapshot.contents ++ [word] }) ∨
      Execution.push word activity = .error (.stackOverflow snapshot.limit) activity ∧
        snapshot.limit < snapshot.contents.length + 1 := by
  unfold Execution.push
  split
  case isTrue hroom =>
    obtain ⟨hcontents, hfits, hbase, hlimit⟩ := Stack.contents_push hrealizes.fits hroom word
    rw [hrealizes.contents] at hcontents
    exact Or.inl ⟨_, rfl, hrealizes.mapStack hfits hcontents (hbase.trans hrealizes.base) hlimit⟩
  case isFalse hfull =>
    have hneeded := Stack.limit_lt_of_not_hasRoom hfull
    rw [hrealizes.limit, hrealizes.top_eq] at hneeded
    rw [hrealizes.limit]
    exact Or.inr ⟨rfl, hneeded⟩

/-- Popping takes the last word away. -/
theorem pop (hrealizes : activity.Realizes snapshot) (below : List Word) {word : Word}
    (hcontents : snapshot.contents = below ++ [word]) :
    ∃ next : Activity, Execution.pop activity = .ok word next ∧
      next.Realizes { snapshot with contents := below } := by
  have htop := hrealizes.top_eq
  rw [hcontents, List.length_append, List.length_singleton] at htop
  have hword : activity.machine.stack.cell (activity.machine.stack.top - 1) = word := by
    rw [htop, Nat.add_sub_cancel]
    exact Stack.cell_eq _ [] (by rw [hrealizes.contents, hcontents])
  unfold Execution.pop
  rw [if_neg (by omega), hword]
  refine ⟨_, rfl, hrealizes.mapStack (hrealizes.fits.cut _ (Nat.sub_le _ _)) ?_ hrealizes.base rfl⟩
  rw [Stack.contents_cut _ _ (Nat.sub_le _ _), htop, Nat.add_sub_cancel, hrealizes.contents, hcontents,
    List.take_left]

/-- Looking at the last word leaves it where it is. -/
theorem peek (hrealizes : activity.Realizes snapshot) (below : List Word) {word : Word}
    (hcontents : snapshot.contents = below ++ [word]) :
    Execution.peek activity = .ok word activity := by
  have htop := hrealizes.top_eq
  rw [hcontents, List.length_append, List.length_singleton] at htop
  have hword : activity.machine.stack.cell (activity.machine.stack.top - 1) = word := by
    rw [htop, Nat.add_sub_cancel]
    exact Stack.cell_eq _ [] (by rw [hrealizes.contents, hcontents])
  unfold Execution.peek
  rw [if_neg (by omega), hword]

/-- Cutting the stack takes a prefix of the words in use. -/
theorem cutStack (hrealizes : activity.Realizes snapshot) (below above : List Word)
    (hcontents : snapshot.contents = below ++ above) :
    ∃ next : Activity, Execution.cutStack below.length activity = .ok () next ∧
      next.Realizes { snapshot with contents := below } := by
  have htop := hrealizes.top_eq
  rw [hcontents, List.length_append] at htop
  have hle : below.length ≤ activity.machine.stack.top := by omega
  refine ⟨_, rfl, hrealizes.mapStack (hrealizes.fits.cut _ hle) ?_ hrealizes.base rfl⟩
  rw [Stack.contents_cut _ _ hle, hrealizes.contents, hcontents, List.take_left]

/-! ### Words and values -/

/-- Decoding answers with the value that a word holds. -/
theorem decode (hrealizes : activity.Realizes snapshot) {word : Word} {value : Value}
    (hvalue : snapshot.constants.value? snapshot.world.store.records word = some value) :
    Execution.decode word activity = .ok value activity := by
  have hdecoded : activity.machine.decode word = .ok value := by
    rw [Machine.decode, hrealizes.constants]
    exact hrealizes.heap.decode hvalue
  simp only [Execution.decode, Execution.ofExcept, hdecoded]

/-- Decoding several words answers with the values that they hold. -/
theorem decodeAll (hrealizes : activity.Realizes snapshot) {words : List Word} {values : List Value}
    (hholds : snapshot.constants.HoldsAll snapshot.world.store.records words values) :
    Execution.decodeAll words activity = .ok values activity := by
  induction hholds with
  | nil => rfl
  | cons hvalue _ ih =>
    rw [Execution.decodeAll, Execution.bind_of_ok (hrealizes.decode hvalue), Execution.bind_of_ok ih]
    rfl

/-- The text that a word refers to is found. -/
theorem nameOf (hrealizes : activity.Realizes snapshot) {word : Word} {name : String}
    (hname : snapshot.constants.text? word = some name) :
    Execution.nameOf word activity = .ok name activity := by
  have hvalue : snapshot.constants.value? snapshot.world.store.records word = some (.text name) :=
    ConstantTable.value?_of_constant? (ConstantTable.text?_eq_some_iff.mp hname)
  rw [Execution.nameOf, Execution.bind_of_ok (hrealizes.decode hvalue)]
  rfl

/-- The class that a word refers to is found. -/
theorem classOf (hrealizes : activity.Realizes snapshot) {word : Word} {layout : Class}
    (hlayout : snapshot.constants.layout? word = some layout) :
    Execution.classOf word activity = .ok layout activity := by
  have hvalue : snapshot.constants.value? snapshot.world.store.records word = some (.layout layout) :=
    ConstantTable.value?_of_constant? (ConstantTable.layout?_eq_some_iff.mp hlayout)
  rw [Execution.classOf, Execution.bind_of_ok (hrealizes.decode hvalue)]
  rfl

/-- The function that a word holds is found, and every other value is refused. -/
theorem functionOf (hrealizes : activity.Realizes snapshot) {word : Word} {value : Value}
    (hvalue : snapshot.constants.value? snapshot.world.store.records word = some value) :
    Execution.functionOf word activity =
      match value with
      | .function callee => .ok callee activity
      | other => .error (.typeMismatch "function" other.typeName) activity := by
  rw [Execution.functionOf, Execution.bind_of_ok (hrealizes.decode hvalue)]
  cases value <;> rfl

/-- The object that a word holds is found, and every other value is refused. -/
theorem objectOf (hrealizes : activity.Realizes snapshot) {word : Word} {value : Value}
    (hvalue : snapshot.constants.value? snapshot.world.store.records word = some value)
    (hobject : ∀ reference : ObjectRef, .object reference ∉ snapshot.constants.entries) :
    Execution.objectOf word activity =
      match value with
      | .object reference => .ok reference activity
      | other => .error (.typeMismatch "object" other.typeName) activity := by
  have hdecoded : activity.machine.decode word = .ok value := by
    rw [Machine.decode, hrealizes.constants]
    exact hrealizes.heap.decode hvalue
  have htypeName : Execution.typeNameOf word activity = .ok value.typeName activity := by
    simp only [Execution.typeNameOf, hdecoded]
  unfold Execution.objectOf Word.reference?
  unfold ConstantTable.value? at hvalue
  split at hvalue
  case h_1 number hkind =>
    obtain rfl := Option.some.inj hvalue
    rw [hkind]
    dsimp only
    rw [Execution.bind_of_ok htypeName]
    rfl
  case h_2 index hkind =>
    have hmem : value ∈ snapshot.constants.entries :=
      Array.mem_iff_getElem?.mpr ⟨index.toNat, hvalue⟩
    rw [hkind]
    dsimp only
    rw [Execution.bind_of_ok htypeName]
    cases value
    case object reference => exact absurd hmem (hobject reference)
    all_goals rfl
  case h_3 index hkind =>
    obtain ⟨layout, hlayout, rfl⟩ := Option.map_eq_some_iff.mp hvalue
    rw [hkind]
    dsimp only
    have hvalue : snapshot.constants.value? snapshot.world.store.records word =
        some (.object ⟨index, layout⟩) := by
      simp only [ConstantTable.value?, hkind, hlayout, Option.map_some]
    rw [Execution.bind_of_ok (hrealizes.decode hvalue)]
    rfl

/-- Whether a word takes a conditional jump is seen from the value that it holds. -/
theorem isFalse (hrealizes : activity.Realizes snapshot) {word : Word} {value : Value}
    (hvalue : snapshot.constants.value? snapshot.world.store.records word = some value)
    (hinline : ∀ entry ∈ snapshot.constants.entries, entry.inlineWord? = none) :
    Execution.isFalse word activity = .ok value.isFalse activity := by
  unfold Execution.isFalse
  rw [hrealizes.constants]
  unfold ConstantTable.value? at hvalue
  split at hvalue
  case h_1 number hkind =>
    obtain rfl := Option.some.inj hvalue
    simp [hkind, Word.eq_zero_iff_of_kind hkind, Value.isFalse, beq_eq_decide]
  case h_2 index hkind =>
    have hnonzero : word ≠ Word.zero := by
      rintro rfl
      cases hkind
    have hinteger : value ≠ .integer 0 := by
      rintro rfl
      cases hinline _ (Array.mem_iff_getElem?.mpr ⟨index.toNat, hvalue⟩)
    simp only [hkind, hnonzero, hvalue, decide_false, Bool.false_or]
    cases value <;> simp_all [Value.isFalse]
  case h_3 index hkind =>
    have hnonzero : word ≠ Word.zero := by
      rintro rfl
      cases hkind
    obtain ⟨layout, -, rfl⟩ := Option.map_eq_some_iff.mp hvalue
    simp [hkind, hnonzero, Value.isFalse]

/-- Encoding answers with a word for the value that the constants carry. -/
theorem encode (hrealizes : activity.Realizes snapshot) {value : Value}
    (hpresent : value.Present snapshot.world.store.records) :
    ∃ (word : Word) (next : Activity), Execution.encode value activity = .ok word next ∧
      next.Realizes { snapshot with constants := (snapshot.constants.carry value).2 } ∧
      (snapshot.constants.carry value).2.value? snapshot.world.store.records word =
        some (snapshot.constants.carry value).1 := by
  unfold ConstantTable.carry
  split
  case h_1 word hword =>
    have hencoded : Execution.encode value activity = .ok word activity := by
      simp only [Execution.encode, Machine.encode, hword]
    refine ⟨word, activity, hencoded, hrealizes, ?_⟩
    cases value <;> simp only [Value.inlineWord?] at hword
    case integer number =>
      obtain ⟨small, hkind, rfl⟩ := Word.kind_of_ofInteger? hword
      simp only [ConstantTable.value?, hkind]
    case object reference =>
      obtain rfl := Option.some.inj hword
      have hindex := hrealizes.heap.lt_indexLimit_of_layoutAt? hpresent
      have hlayout : Store.layoutAt? snapshot.world.store.records reference.index.toNat =
        some reference.layout := hpresent
      simp only [ConstantTable.value?, Word.kind_reference _ hindex, hlayout, Option.map_some]
    all_goals cases hword
  case h_2 hword =>
    obtain ⟨found, hboxed, -⟩ := snapshot.constants.exists_boxed_box value
    obtain ⟨entry, hentry⟩ := hboxed.exists_constant?
    have hencoded : Execution.encode value activity =
        .ok (snapshot.constants.box value).1
          { activity with
            machine := { activity.machine with constants := (snapshot.constants.box value).2 } } := by
      simp only [Execution.encode, Machine.encode, hword, hrealizes.constants]
    refine ⟨_, _, hencoded, ?_, ?_⟩
    · exact ⟨hrealizes.globals, hrealizes.sink, hrealizes.hosts,
        hrealizes.heap.mono (ConstantTable.box_extends _ _), rfl, hrealizes.fits, hrealizes.contents,
        hrealizes.base, hrealizes.limit, hrealizes.frame, hrealizes.offset⟩
    · dsimp only
      rw [hentry]
      exact ConstantTable.value?_of_constant? hentry

end Activity.Realizes

end ScriptMachine
