import ScriptMachine.Proofs.Evaluation
import ScriptMachine.Proofs.Lowered
import ScriptMachine.Proofs.Runs
import ScriptMachine.Proofs.SlotLayout

/-!
# Single operations follow the tree

The calls of a machine follow the evaluation of a tree when they lead to where the evaluation says: to a
place behind the code of the tree with its values on top of the operands, to a return with the returned
value, or to the same fault (`Body.Follows`). This module relates single operations to what the tree does
there, and `Body.Follows.bind` puts parts together.

Constants past the last one that a word can number come back as other values, and so do variables past the
last slot that a word can number. Calls that have `Outgrown` the words in this way follow nothing any more.
-/

set_option autoImplicit false
set_option relaxedAutoImplicit false

namespace ScriptMachine

namespace CallStack

/-! ### Where calls lead -/

/-- There are more constants or more variables than words can number. -/
def Outgrown (calls : CallStack) : Prop :=
  Word.indexLimit < calls.constants.size ∨ 4294967296 < calls.current.locals.length

/-- Calls reach a goal, unless they outgrow the words before. -/
def Leads (calls : CallStack) (goal : CallStack → Prop) : Prop :=
  ∃ reached : CallStack, calls.Reaches reached ∧ (reached.Outgrown ∨ goal reached)

namespace Leads

variable {calls later : CallStack} {goal next : CallStack → Prop}

/-- Calls that are at their goal lead there. -/
theorem here (hgoal : goal calls) : calls.Leads goal :=
  ⟨calls, .refl, Or.inr hgoal⟩

/-- Calls lead where they lead after some steps. -/
theorem of_reaches (hreaches : calls.Reaches later) (hleads : later.Leads goal) : calls.Leads goal := by
  obtain ⟨reached, hrest, hreached⟩ := hleads
  exact ⟨reached, hreaches.trans hrest, hreached⟩

/-- Calls lead where they lead after one step. -/
theorem of_continues (hcontinues : calls.Continues later) (hleads : later.Leads goal) : calls.Leads goal :=
  hleads.of_reaches (.single hcontinues)

/-- What leads to a goal leads to where the goal leads. -/
theorem bind (hleads : calls.Leads goal) (hnext : ∀ reached : CallStack, goal reached → reached.Leads next) :
    calls.Leads next := by
  obtain ⟨reached, hreaches, houtgrown | hgoal⟩ := hleads
  · exact ⟨reached, hreaches, Or.inl houtgrown⟩
  · exact (hnext reached hgoal).of_reaches hreaches

/-- What leads to a goal reaches it on the way. -/
theorem withReaches (hleads : calls.Leads goal) :
    calls.Leads fun reached ↦ calls.Reaches reached ∧ goal reached := by
  obtain ⟨reached, hreaches, houtgrown | hgoal⟩ := hleads
  · exact ⟨reached, hreaches, Or.inl houtgrown⟩
  · exact ⟨reached, hreaches, Or.inr ⟨hreaches, hgoal⟩⟩

/-- What leads to a goal leads to every weaker one. -/
theorem mono (hleads : calls.Leads goal) (hweaker : ∀ reached : CallStack, goal reached → next reached) :
    calls.Leads next :=
  hleads.bind fun reached hgoal ↦ here (hweaker reached hgoal)

end Leads

/-- Calls stop for a reason: the next operation fails, or there are more calls in progress than a bound. -/
def StopsFor (calls : CallStack) (bound : Nat) (world : World) : Stop → Prop
  | .failed fault => ∃ constants : ConstantTable, calls.step = some (.failed fault world constants)
  | .exhausted => bound < calls.callers.length

end CallStack

/-! ### Bodies -/

/-- Variables by name are those in the slots. -/
def SlotTable.Agrees (slots : SlotTable) (bindings : String → Option Value) (locals : List Value) : Prop :=
  ∀ name : String, bindings name = (slots.slotOf? name).bind fun slot ↦ locals[slot]?

/-- A function body that is evaluated by a call: its slots, its code, its callers, and the number of callers
at which the evaluation gives up. -/
structure Body where
  program : Program
  registry : Registry
  known : List Value
  slots : SlotTable
  routine : Routine
  callers : List Level
  bound : Nat

namespace Body

/-- The innermost call is the one of a body, at an offset and with some operands. -/
structure Stands (body : Body) (locale : Locale) (offset : Nat) (operands : List Value)
    (calls : CallStack) : Prop where
  valid : calls.Valid body.registry body.known
  constants : body.program.constants.Extends calls.constants
  world : calls.world = locale.world
  routine : calls.current.routine = body.routine
  offset : calls.current.offset = offset
  operands : calls.current.operands = operands
  callers : calls.callers = body.callers
  agrees : body.slots.Agrees locale.bindings calls.current.locals

/-- What has to hold of calls that follow an evaluation when it is over. -/
def Matches {α : Type} (body : Body) (goal : α → Locale → CallStack → Prop) (calls : CallStack) :
    EStateM.Result Signal Locale α → Prop
  | .ok value locale => goal value locale calls
  | .error (.returned value) locale =>
    calls.Returns ∧ calls.world = locale.world ∧ calls.callers = body.callers ∧
      ∃ rest : List Value, calls.current.operands = value :: rest
  | .error (.stopped stop) locale => calls.StopsFor body.bound locale.world stop

/-- Calls follow an evaluation. -/
def Follows {α : Type} (body : Body) (calls : CallStack) (result : EStateM.Result Signal Locale α)
    (goal : α → Locale → CallStack → Prop) : Prop :=
  calls.Leads fun reached ↦ body.Matches goal reached result

namespace Follows

variable {α β : Type} {body : Body} {calls : CallStack} {locale : Locale}

/-- Calls that follow a part of an evaluation and then what comes after it follow the whole. -/
theorem bind {part : Evaluation α} {rest : α → Evaluation β} {goal : α → Locale → CallStack → Prop}
    {final : β → Locale → CallStack → Prop} (hpart : body.Follows calls (part locale) goal)
    (hrest : ∀ (value : α) (after : Locale) (reached : CallStack), goal value after reached →
      body.Follows reached (rest value after) final) :
    body.Follows calls ((part >>= rest) locale) final := by
  unfold Follows at hpart ⊢
  simp only [Bind.bind, EStateM.bind]
  cases hresult : part locale with
  | ok value after =>
    rw [hresult] at hpart
    exact hpart.bind fun reached hgoal ↦ hrest value after reached hgoal
  | error signal after =>
    rw [hresult] at hpart
    refine hpart.mono fun reached hmatches ↦ ?_
    cases signal with
    | returned value => exact hmatches
    | stopped stop => exact hmatches

/-- Calls that are where an evaluation without effect leads follow it. -/
theorem done {value : α} {goal : α → Locale → CallStack → Prop} (hgoal : goal value locale calls) :
    body.Follows calls ((pure value : Evaluation α) locale) goal :=
  CallStack.Leads.here hgoal

/-- Calls follow an evaluation to every weaker goal. -/
theorem mono {result : EStateM.Result Signal Locale α} {goal weaker : α → Locale → CallStack → Prop}
    (hfollows : body.Follows calls result goal)
    (hweaker : ∀ (value : α) (after : Locale) (reached : CallStack), goal value after reached →
      weaker value after reached) : body.Follows calls result weaker := by
  refine CallStack.Leads.mono hfollows fun reached hmatches ↦ ?_
  cases result with
  | ok value after => exact hweaker value after reached hmatches
  | error signal after =>
    cases signal with
    | returned value => exact hmatches
    | stopped stop => exact hmatches

end Follows

/-! ### Operations of a body -/

namespace Stands

variable {body : Body} {locale : Locale} {offset next : Nat} {operands : List Value} {calls : CallStack}

/-- The next operation of the calls is the one in the code. -/
theorem next?_eq (hstands : body.Stands locale offset operands calls) {operation : Operation}
    (hoperation : body.routine.unit.operationAt body.program.constants offset = some (operation, next)) :
    calls.next? = some (operation, next) := by
  unfold CallStack.next?
  rw [hstands.routine, hstands.offset]
  exact CodeUnit.operationAt_mono hstands.constants hoperation

/-- The next step of the calls carries the operation in the code out. -/
theorem step_eq (hstands : body.Stands locale offset operands calls) {operation : Operation}
    (hoperation : body.routine.unit.operationAt body.program.constants offset = some (operation, next)) :
    calls.step = (calls.withOffset next).perform operation := by
  have hnext := hstands.next?_eq hoperation
  unfold CallStack.next? at hnext
  unfold CallStack.step
  rw [hnext]

/-- Calls go on with other operands, and perhaps in another world. -/
theorem goesOn (hstands : body.Stands locale offset operands calls) {operation : Operation}
    (hoperation : body.routine.unit.operationAt body.program.constants offset = some (operation, next))
    {world : World} {left : List Value} {target : Nat}
    (hperformed : (calls.withOffset next).perform operation =
      some (.next (((calls.withWorld world).withOperands left).withOffset target))) :
    calls.Leads (body.Stands ⟨world, locale.bindings⟩ target left) := by
  have hcontinues : calls.Continues (((calls.withWorld world).withOperands left).withOffset target) :=
    (hstands.step_eq hoperation).trans hperformed
  refine CallStack.Leads.of_continues hcontinues (CallStack.Leads.here ?_)
  exact ⟨hstands.valid.of_reaches (.single hcontinues), hstands.constants, rfl, hstands.routine, rfl, rfl,
    hstands.callers, hstands.agrees⟩

/-- A value is put on top of the operands. -/
theorem push (hstands : body.Stands locale offset operands calls) {value : Value}
    (hoperation : body.routine.unit.operationAt body.program.constants offset = some (.push value, next)) :
    calls.Leads (body.Stands locale next (value :: operands)) := by
  refine hstands.goesOn hoperation ?_
  rw [← hstands.world, ← hstands.operands]
  rfl

/-- Whether the innermost call has few enough variables for slots to be numbered by words. -/
theorem lt_or_outgrown (hstands : body.Stands locale offset operands calls)
    (hwidth : body.routine.unit.slotCount = body.slots.size) {name : String} {slot : Nat}
    (hslot : body.slots.slotOf? name = some slot) :
    slot < calls.current.locals.length ∧ (calls.Outgrown ∨ (UInt32.ofNat slot).toNat = slot) := by
  have hlength : calls.current.locals.length = body.slots.size := by
    rw [← hwidth, ← hstands.routine]
    exact hstands.valid.current.width
  have hinside : slot < calls.current.locals.length := by
    rw [hlength]
    exact SlotTable.slotOf?_lt hslot
  refine ⟨hinside, ?_⟩
  by_cases hmany : 4294967296 < calls.current.locals.length
  · exact Or.inl (Or.inr hmany)
  · refine Or.inr ?_
    rw [UInt32.toNat_ofNat']
    exact Nat.mod_eq_of_lt (by omega)

/-- A variable is read. -/
theorem load (hstands : body.Stands locale offset operands calls)
    (hwidth : body.routine.unit.slotCount = body.slots.size) {name : String} {slot : Nat}
    (hslot : body.slots.slotOf? name = some slot)
    (hoperation : body.routine.unit.operationAt body.program.constants offset =
      some (.load (UInt32.ofNat slot).toNat, next)) :
    body.Follows calls (Evaluation.read name locale) fun value after ↦
      body.Stands after next (value :: operands) := by
  obtain ⟨hinside, houtgrown | hnumber⟩ := hstands.lt_or_outgrown hwidth hslot
  · exact ⟨calls, .refl, Or.inl houtgrown⟩
  · have hfound : calls.current.locals[slot]? = some calls.current.locals[slot] :=
      List.getElem?_eq_getElem hinside
    have hread : Evaluation.read name locale = .ok calls.current.locals[slot] locale := by
      unfold Evaluation.read
      rw [hstands.agrees name, hslot, Option.bind_some, hfound]
      rfl
    rw [hread]
    rw [hnumber] at hoperation
    refine hstands.goesOn hoperation ?_
    rw [← hstands.world, ← hstands.operands]
    exact congrArg (Option.map _) hfound

/-- A global is read. -/
theorem lookup (hstands : body.Stands locale offset operands calls) {name : String}
    (hslot : body.slots.slotOf? name = none)
    (hoperation : body.routine.unit.operationAt body.program.constants offset =
      some (.lookup name, next)) :
    body.Follows calls (Evaluation.read name locale) fun value after ↦
      body.Stands after next (value :: operands) := by
  have hread : Evaluation.read name locale = .ok (calls.world.globals.lookup name) locale := by
    unfold Evaluation.read
    rw [hstands.agrees name, hslot, hstands.world]
    rfl
  have hcontinues : calls.Continues
      ((calls.withOffset next).pushCarried (calls.world.globals.lookup name) calls.current.operands) :=
    hstands.step_eq hoperation
  have hvalid := hstands.valid.of_reaches (.single hcontinues)
  rw [hread]
  refine CallStack.Leads.of_continues hcontinues ?_
  by_cases hsize : (calls.constants.carry (calls.world.globals.lookup name)).2.size ≤ Word.indexLimit
  · have hcarried := hstands.valid.constants.carry_eq (hstands.valid.world.globals name) hsize
    refine CallStack.Leads.here ⟨hvalid, ?_, hstands.world, hstands.routine, rfl, ?_, hstands.callers,
      hstands.agrees⟩
    · exact hstands.constants.trans (calls.constants.carry_extends _)
    · rw [← hstands.operands]
      exact congrArg (· :: calls.current.operands) hcarried
  · exact ⟨_, .refl, Or.inl (Or.inl (Nat.lt_of_not_le hsize))⟩

/-- A variable is assigned. -/
theorem store {value : Value} (hstands : body.Stands locale offset (value :: operands) calls)
    (hwidth : body.routine.unit.slotCount = body.slots.size) {name : String} {slot : Nat}
    (hslot : body.slots.slotOf? name = some slot)
    (hoperation : body.routine.unit.operationAt body.program.constants offset =
      some (.store (UInt32.ofNat slot).toNat, next)) :
    body.Follows calls (Evaluation.assign name value locale) fun _ after ↦
      body.Stands after next operands := by
  obtain ⟨hinside, houtgrown | hnumber⟩ := hstands.lt_or_outgrown hwidth hslot
  · exact ⟨calls, .refl, Or.inl houtgrown⟩
  · rw [hnumber] at hoperation
    have hcontinues : calls.Continues { calls with
        current := ⟨calls.current.routine, next, calls.current.locals.set slot value, operands⟩ } := by
      refine (hstands.step_eq hoperation).trans ?_
      unfold CallStack.perform
      rw [show (calls.withOffset next).current.operands = value :: operands from hstands.operands]
      exact if_pos hinside
    refine CallStack.Leads.of_continues hcontinues (CallStack.Leads.here ?_)
    refine ⟨hstands.valid.of_reaches (.single hcontinues), hstands.constants, hstands.world,
      hstands.routine, rfl, rfl, hstands.callers, fun other ↦ ?_⟩
    have hsame : body.slots.slotOf? other = some slot ↔ other = name := by
      constructor
      · intro hother
        have hnames := SlotTable.getElem?_of_slotOf? hother
        rw [SlotTable.getElem?_of_slotOf? hslot] at hnames
        exact (Option.some.inj hnames).symm
      · rintro rfl
        exact hslot
    dsimp only
    by_cases hother : other = name
    · rw [if_pos hother, hsame.mpr hother, Option.bind_some, List.getElem?_set_self hinside]
    · rw [if_neg hother, hstands.agrees other]
      cases hfound : body.slots.slotOf? other with
      | none => rfl
      | some position =>
        have hdifferent : slot ≠ position := by
          rintro rfl
          exact hother (hsame.mp hfound)
        rw [Option.bind_some, Option.bind_some, List.getElem?_set_ne hdifferent]

/-- A global is bound. -/
theorem register {value : Value} (hstands : body.Stands locale offset (value :: operands) calls)
    {name : String} (hoperation : body.routine.unit.operationAt body.program.constants offset =
      some (.register name, next)) :
    body.Follows calls (Evaluation.register name value locale) fun _ after ↦
      body.Stands after next operands := by
  refine hstands.goesOn hoperation ?_
  unfold CallStack.perform
  rw [show (calls.withOffset next).current.operands = value :: operands from hstands.operands]
  rw [← hstands.world]
  rfl

/-- The value on top of the operands is doubled. -/
theorem duplicate {value : Value} (hstands : body.Stands locale offset (value :: operands) calls)
    (hoperation : body.routine.unit.operationAt body.program.constants offset =
      some (.duplicate, next)) :
    calls.Leads (body.Stands locale next (value :: value :: operands)) := by
  refine hstands.goesOn hoperation ?_
  unfold CallStack.perform
  rw [show (calls.withOffset next).current.operands = value :: operands from hstands.operands]
  rw [← hstands.world]
  rfl

/-- The value on top of the operands is dropped. -/
theorem pop {value : Value} (hstands : body.Stands locale offset (value :: operands) calls)
    (hoperation : body.routine.unit.operationAt body.program.constants offset = some (.pop, next)) :
    calls.Leads (body.Stands locale next operands) := by
  refine hstands.goesOn hoperation ?_
  unfold CallStack.perform
  rw [show (calls.withOffset next).current.operands = value :: operands from hstands.operands]
  rw [← hstands.world]
  rfl

/-- The two values on top of the operands change places. -/
theorem swap {upper lower : Value} (hstands : body.Stands locale offset (upper :: lower :: operands) calls)
    (hoperation : body.routine.unit.operationAt body.program.constants offset = some (.swap, next)) :
    calls.Leads (body.Stands locale next (lower :: upper :: operands)) := by
  refine hstands.goesOn hoperation ?_
  unfold CallStack.perform
  rw [show (calls.withOffset next).current.operands = upper :: lower :: operands from hstands.operands]
  rw [← hstands.world]
  rfl

/-- The code goes on elsewhere. -/
theorem goto (hstands : body.Stands locale offset operands calls) {target : Nat}
    (hoperation : body.routine.unit.operationAt body.program.constants offset =
      some (.goto target, next)) :
    calls.Leads (body.Stands locale target operands) := by
  refine hstands.goesOn hoperation ?_
  rw [← hstands.world, ← hstands.operands]
  rfl

/-- The code goes on elsewhere when the value on top of the operands is a false one. -/
theorem jumpIfFalse {value : Value} (hstands : body.Stands locale offset (value :: operands) calls)
    {target : Nat} (hoperation : body.routine.unit.operationAt body.program.constants offset =
      some (.jumpIfFalse target, next)) :
    calls.Leads (body.Stands locale (if value.isFalse then target else next) operands) := by
  refine hstands.goesOn hoperation ?_
  unfold CallStack.perform
  rw [show (calls.withOffset next).current.operands = value :: operands from hstands.operands]
  rw [← hstands.world]
  dsimp only
  split_ifs <;> rfl

/-- An operation that fails stops the calls. -/
theorem fails {α : Type} (hstands : body.Stands locale offset operands calls) {operation : Operation}
    (hoperation : body.routine.unit.operationAt body.program.constants offset = some (operation, next))
    {fault : Fault} (hperformed : (calls.withOffset next).perform operation =
      some (.failed fault calls.world calls.constants)) {goal : α → Locale → CallStack → Prop} :
    body.Follows calls (.error (.stopped (.failed fault)) locale) goal := by
  refine CallStack.Leads.here ⟨calls.constants, ?_⟩
  rw [hstands.step_eq hoperation, hperformed, hstands.world]

/-- An object is made. -/
theorem new {layout : Class} {fields : List Value}
    (hstands : body.Stands locale offset (fields.reverse ++ operands) calls)
    (hlength : fields.length = layout.fieldCount)
    (hoperation : body.routine.unit.operationAt body.program.constants offset =
      some (.new layout, next)) :
    body.Follows calls (Evaluation.construct layout fields locale) fun value after ↦
      body.Stands after next (value :: operands) := by
  have hperformed : (calls.withOffset next).perform (.new layout) =
      some ((calls.withOffset next).proceed operands (locale.world.allocate layout fields)) := by
    unfold CallStack.perform
    rw [show (calls.withOffset next).current.operands = fields.reverse ++ operands from hstands.operands]
    have henough : ¬ (fields.reverse ++ operands).length < layout.fieldCount := by
      simp [← hlength]
    have hreverse : fields.reverse.length = layout.fieldCount := by
      rw [List.length_reverse, hlength]
    dsimp only
    rw [if_neg henough, List.drop_left' hreverse, List.take_left' hreverse, List.reverse_reverse,
      ← hstands.world]
    rfl
  unfold Evaluation.construct
  cases hmade : locale.world.allocate layout fields with
  | ok made =>
    rw [hmade] at hperformed
    exact hstands.goesOn hoperation hperformed
  | error fault =>
    rw [hmade] at hperformed
    exact hstands.fails hoperation hperformed

/-- A field is read. -/
theorem get {receiver : Value} (hstands : body.Stands locale offset (receiver :: operands) calls)
    {name : String} (hoperation : body.routine.unit.operationAt body.program.constants offset =
      some (.get name, next)) :
    body.Follows calls (Evaluation.readField receiver name locale) fun value after ↦
      body.Stands after next (value :: operands) := by
  have hperformed : (calls.withOffset next).perform (.get name) =
      some ((calls.withOffset next).proceed operands
        ((locale.world.readField receiver name).map fun value ↦ (value, locale.world))) := by
    unfold CallStack.perform
    rw [show (calls.withOffset next).current.operands = receiver :: operands from hstands.operands,
      ← hstands.world]
    rfl
  unfold Evaluation.readField
  cases hread : locale.world.readField receiver name with
  | ok value =>
    rw [hread] at hperformed
    exact hstands.goesOn hoperation hperformed
  | error fault =>
    rw [hread] at hperformed
    exact hstands.fails hoperation hperformed

/-- A field is replaced. -/
theorem put {receiver value : Value}
    (hstands : body.Stands locale offset (value :: receiver :: operands) calls) {name : String}
    (hoperation : body.routine.unit.operationAt body.program.constants offset = some (.put name, next)) :
    body.Follows calls (Evaluation.writeField receiver name value locale) fun _ after ↦
      body.Stands after next operands := by
  have hoperands : (calls.withOffset next).current.operands = value :: receiver :: operands := hstands.operands
  unfold Evaluation.writeField
  rw [← show (calls.withOffset next).world = locale.world from hstands.world]
  cases hwritten : (calls.withOffset next).world.writeField receiver name value with
  | ok world =>
    refine hstands.goesOn hoperation ?_
    unfold CallStack.perform
    rw [hoperands]
    simp only [hwritten]
    rfl
  | error fault =>
    refine hstands.fails hoperation ?_
    unfold CallStack.perform
    rw [hoperands]
    simp only [hwritten]
    rfl

end Stands

end Body

end ScriptMachine
