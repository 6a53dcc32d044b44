import ScriptMachine.Proofs.FrameChain
import ScriptMachine.Proofs.ValidCalls

/-!
# The machine mirrors calls

One instruction of the machine does to the words of the stack what one operation of the calls does to their
values (`Mirrors.execute`), and so does a step, which reads the instruction first (`Mirrors.step`). The only
difference is that the stack of the machine can be full. Every operation falls apart into primitives
that are known to do the right thing to a snapshot; what is left is to follow them through the operands of
the running frame.
-/

set_option autoImplicit false
set_option relaxedAutoImplicit false

namespace ScriptMachine

/-! ### Primitives over the operands of a frame -/

/-- The running machine of a chain with other operands, in another world. -/
def FrameChain.view (chain : FrameChain) (world : World) (constants : ConstantTable) (limit : Nat)
    (operands : List Word) : Snapshot :=
  ⟨world, constants, limit, chain.floor ++ operands.reverse, chain.base, chain.current.frame,
    chain.current.offset⟩

namespace Activity.Realizes

variable {activity : Activity} {chain : FrameChain} {world : World} {constants : ConstantTable}
  {limit : Nat} {operands : List Word} {word : Word}

/-- A word is put on top of the operands, or there is no room for it. -/
theorem pushOperand (hrealizes : activity.Realizes (chain.view world constants limit operands))
    (word : Word) :
    (∃ next : Activity, Execution.push word activity = .ok () next ∧
        next.Realizes (chain.view world constants limit (word :: operands))) ∨
      Execution.push word activity = .error (.stackOverflow limit) activity ∧
        limit < chain.floor.length + operands.length + 1 := by
  rcases hrealizes.push word with ⟨next, hpush, hnext⟩ | ⟨hfull, hneeded⟩
  · refine Or.inl ⟨next, hpush, ?_⟩
    rw [FrameChain.view, List.reverse_cons, ← List.append_assoc]
    exact hnext
  · simp only [FrameChain.view, List.length_append, List.length_reverse] at hneeded
    exact Or.inr ⟨hfull, hneeded⟩

/-- The topmost operand is taken away. -/
theorem popOperand (hrealizes : activity.Realizes (chain.view world constants limit (word :: operands))) :
    ∃ next : Activity, Execution.pop activity = .ok word next ∧
      next.Realizes (chain.view world constants limit operands) :=
  hrealizes.pop (chain.floor ++ operands.reverse) (by simp [FrameChain.view])

/-- The topmost operand is looked at. -/
theorem peekOperand (hrealizes : activity.Realizes (chain.view world constants limit (word :: operands))) :
    Execution.peek activity = .ok word activity :=
  hrealizes.peek (chain.floor ++ operands.reverse) (by simp [FrameChain.view])

/-- Several operands are cut off. -/
theorem cutOperands {above : List Word}
    (hrealizes : activity.Realizes (chain.view world constants limit (above ++ operands))) :
    ∃ next : Activity,
      Execution.cutStack (chain.floor ++ operands.reverse).length activity = .ok () next ∧
      next.Realizes (chain.view world constants limit operands) :=
  hrealizes.cutStack (chain.floor ++ operands.reverse) above.reverse (by simp [FrameChain.view])

/-- The top of the stack counts the operands and the words below them. -/
theorem top_eq_operands (hrealizes : activity.Realizes (chain.view world constants limit operands)) :
    activity.machine.stack.top = chain.floor.length + operands.length := by
  rw [hrealizes.top_eq]
  simp [FrameChain.view]

/-- A machine that stops over the operands of a frame has the words below that frame. -/
theorem endsAt (hrealizes : activity.Realizes (chain.view world constants limit operands)) :
    EndsAt limit activity chain.lower world constants := by
  refine ⟨_, chain.current.frame.word :: chain.current.locals ++ chain.record ++ operands.reverse,
    hrealizes, rfl, rfl, rfl, ?_⟩
  simp [FrameChain.view, FrameChain.floor]

/-- A slot of the running frame is read. -/
theorem readSlot (hrealizes : activity.Realizes (chain.view world constants limit operands))
    {slot : Nat} (hslot : chain.current.locals[slot]? = some word) :
    Execution.readSlot slot activity = .ok word activity := by
  obtain ⟨hinside, hword⟩ := List.getElem?_eq_some_iff.mp hslot
  have hlocals : chain.current.locals =
      chain.current.locals.take slot ++ word :: chain.current.locals.drop (slot + 1) := by
    rw [← hword, List.getElem_cons_drop, List.take_append_drop]
  have hposition : chain.base + slot =
      (chain.lower ++ chain.current.frame.word :: chain.current.locals.take slot).length := by
    rw [FrameChain.base_eq, List.length_append, List.length_cons,
      List.length_take_of_le (Nat.le_of_lt hinside)]
    omega
  have hcell : activity.machine.stack.cell (chain.base + slot) = word := by
    rw [hposition]
    refine Stack.cell_eq _ (chain.current.locals.drop (slot + 1) ++ chain.record ++
      operands.reverse) ?_
    rw [hrealizes.contents]
    simp only [FrameChain.view, FrameChain.floor]
    nth_rewrite 1 [hlocals]
    simp
  unfold Execution.readSlot
  rw [hrealizes.base]
  simp only [FrameChain.view, hcell]

/-- A slot of the running frame is replaced. -/
theorem writeSlot (hrealizes : activity.Realizes (chain.view world constants limit operands))
    {slot : Nat} (hslot : slot < chain.current.locals.length) (word : Word) :
    ∃ next : Activity, Execution.writeSlot slot word activity = .ok () next ∧
      next.Realizes (FrameChain.view { chain with
        current := { chain.current with locals := chain.current.locals.set slot word } }
          world constants limit operands) := by
  refine ⟨_, rfl, hrealizes.mapStack (hrealizes.fits.setCell _ _) ?_ hrealizes.base rfl⟩
  rw [Stack.contents_setCell, hrealizes.contents, hrealizes.base]
  have hposition : chain.base + slot = chain.lower.length + (1 + slot) := by
    rw [FrameChain.base_eq]
    omega
  simp only [FrameChain.view, FrameChain.floor, hposition, List.append_assoc, List.cons_append]
  rw [List.set_append_right _ _ (Nat.le_add_right _ _), Nat.add_sub_cancel_left, Nat.add_comm 1 slot,
    List.set_cons_succ, List.set_append_left _ _ hslot]
  rfl

/-- The running machine goes on at another offset. -/
theorem withOffset (hrealizes : activity.Realizes (chain.view world constants limit operands))
    (offset : Nat) :
    Activity.Realizes { activity with offset := offset }
      (FrameChain.view { chain with current := { chain.current with offset := offset } }
        world constants limit operands) :=
  ⟨hrealizes.globals, hrealizes.sink, hrealizes.hosts, hrealizes.heap, hrealizes.constants,
    hrealizes.fits, hrealizes.contents, hrealizes.base, hrealizes.limit, hrealizes.frame, rfl⟩

end Activity.Realizes

/-- A slot of the running frame is one if it counts among its variables. -/
theorem Execution.slotOf_eq {activity : Activity} {operand : UInt32}
    (hslot : operand.toNat < activity.frame.routine.unit.slotCount) :
    Execution.slotOf operand activity = .ok operand.toNat activity := by
  unfold Execution.slotOf
  exact if_pos hslot

namespace Mirrors

variable {limit : Nat} {activity : Activity} {chain : FrameChain} {calls : CallStack}

/-- The running machine seen over its operands. -/
theorem view (hmirrors : Mirrors limit activity chain calls) :
    activity.Realizes (chain.view calls.world calls.constants limit chain.current.operands) :=
  hmirrors.realizes

/-- The calls with other operands in the innermost one need these on top of the words below them. -/
theorem words_withOperands (hmirrors : Mirrors limit activity chain calls) (world : World)
    (constants : ConstantTable) (operands : List Value) :
    chain.entry.length +
        CallStack.words ⟨world, constants, { calls.current with operands := operands }, calls.callers⟩ =
      chain.floor.length + operands.length := by
  have hlower := FrameChain.length_stacked chain.entry chain.hostBase hmirrors.callers
  have hlocals := hmirrors.current.locals.length_eq
  simp only [CallStack.words, List.map_cons, List.sum_cons, Level.words, recordSize, FrameChain.floor,
    FrameChain.lower, FrameChain.record, List.length_append, List.length_cons, List.length_nil, hlower]
  omega

/-- A machine that goes on in the running frame mirrors the calls with other values in the innermost
one. -/
theorem stays (hmirrors : Mirrors limit activity chain calls) {next : Activity} (offset : Nat)
    (locals operands : List Word) {localValues operandValues : List Value} {world : World}
    {constants : ConstantTable}
    (hnext : next.Realizes
      (FrameChain.view { chain with current := ⟨chain.current.frame, offset, locals, operands⟩ }
        world constants limit operands))
    (hextends : calls.constants.Extends constants)
    (hkeeps : Store.KeepsLayouts calls.world.store.records world.store.records)
    (hwidth : locals.length = chain.current.locals.length)
    (hlocals : constants.HoldsAll world.store.records locals localValues)
    (hoperands : constants.HoldsAll world.store.records operands operandValues) :
    ∃ later : FrameChain,
      Mirrors limit next later
        ⟨world, constants, ⟨calls.current.routine, offset, localValues, operandValues⟩, calls.callers⟩ ∧
      chain.Moves later := by
  refine ⟨_, ⟨hnext, ?_, ?_, hmirrors.resumable, hmirrors.hostBase_lt⟩,
    FrameChain.Moves.stays chain offset locals operands hwidth⟩
  · exact ⟨hmirrors.current.routine, ConstantTable.constant?_mono hextends hmirrors.current.word, rfl,
      hwidth.trans hmirrors.current.width, hlocals, hoperands⟩
  · exact hmirrors.callers.imp fun segment level hholds ↦ hholds.mono hextends hkeeps

/-- A machine that goes on with other operands mirrors the calls with the values of those. -/
theorem goesOn (hmirrors : Mirrors limit activity chain calls) {next : Activity} {operands : List Word}
    {operandValues : List Value} {world : World} {constants : ConstantTable}
    (hnext : next.Realizes (chain.view world constants limit operands))
    (hextends : calls.constants.Extends constants)
    (hkeeps : Store.KeepsLayouts calls.world.store.records world.store.records)
    (hoperands : constants.HoldsAll world.store.records operands operandValues) :
    ∃ later : FrameChain,
      Mirrors limit next later
        ⟨world, constants, { calls.current with operands := operandValues }, calls.callers⟩ ∧
      chain.Moves later := by
  have hoffset := hmirrors.current.offset
  obtain ⟨later, hlater, hmoves⟩ := hmirrors.stays chain.current.offset chain.current.locals operands
    hnext hextends hkeeps rfl (hmirrors.current.locals.mono hextends hkeeps) hoperands
  rw [hoffset] at hlater
  exact ⟨later, hlater, hmoves⟩

/-- A machine that has come to the last thing of an instruction, which is to push a word, does what the
calls do with the value of that word. -/
theorem pushes (hmirrors : Mirrors limit activity chain calls) {reached : Activity}
    {operands : List Word} {word : Word} {values : List Value} {value : Value} {world : World}
    {constants : ConstantTable}
    (hreached : reached.Realizes (chain.view world constants limit operands))
    (hextends : calls.constants.Extends constants)
    (hkeeps : Store.KeepsLayouts calls.world.store.records world.store.records)
    (hoperands : constants.HoldsAll world.store.records operands values)
    (hword : constants.value? world.store.records word = some value) :
    Corresponds limit chain ((do Execution.push word; return none : Execution (Option Value)) reached)
      (.next ⟨world, constants, { calls.current with operands := value :: values }, calls.callers⟩) := by
  rcases hreached.pushOperand word with ⟨next, hpush, hnext⟩ | ⟨hfull, hneeded⟩
  · obtain ⟨later, hlater, hmoves⟩ := hmirrors.goesOn hnext hextends hkeeps
      (List.Forall₂.cons hword hoperands)
    exact Or.inl ⟨next, later, Execution.bind_of_ok hpush, hlater, hmoves⟩
  · refine Or.inr ⟨reached, Execution.bind_of_error hfull, hreached.endsAt, ?_⟩
    rw [hmirrors.words_withOperands, List.length_cons, ← hoperands.length_eq]
    omega

/-! ### Operands -/

/-- The operands of the running frame, with the topmost one apart. -/
theorem exists_operands (hmirrors : Mirrors limit activity chain calls) {value : Value}
    {rest : List Value} (hoperands : calls.current.operands = value :: rest) :
    ∃ (word : Word) (words : List Word), chain.current.operands = word :: words ∧
      calls.constants.value? calls.world.store.records word = some value ∧
      calls.constants.HoldsAll calls.world.store.records words rest ∧
      ∃ next : Activity, Execution.pop activity = .ok word next ∧
        next.Realizes (chain.view calls.world calls.constants limit words) := by
  have hholds := hmirrors.current.operands
  rw [hoperands] at hholds
  obtain ⟨word, words, hword, hwords, hsplit⟩ := List.forall₂_cons_right_iff.mp hholds
  have hview := hmirrors.view
  rw [hsplit] at hview
  exact ⟨word, words, hsplit, hword, hwords, hview.popOperand⟩

/-- A constant is pushed. -/
theorem constant (hmirrors : Mirrors limit activity chain calls) {word : Word} {value : Value}
    (hvalue : calls.constants.value? [] word = some value) :
    Corresponds limit chain (Execution.execute (.constant word) activity)
      (.next (calls.withOperands (value :: calls.current.operands))) :=
  hmirrors.pushes hmirrors.view (ConstantTable.Extends.refl _) (Store.KeepsLayouts.refl _)
    hmirrors.current.operands
    (ConstantTable.value?_mono (ConstantTable.Extends.refl _) (Store.keepsLayouts_append [] _) hvalue)

/-- The topmost operand is duplicated. -/
theorem duplicate (hmirrors : Mirrors limit activity chain calls) {value : Value} {rest : List Value}
    (hoperands : calls.current.operands = value :: rest) :
    Corresponds limit chain (Execution.execute .duplicate activity)
      (.next (calls.withOperands (value :: value :: rest))) := by
  obtain ⟨word, words, hsplit, hword, hwords, -⟩ := hmirrors.exists_operands hoperands
  have hview := hmirrors.view
  rw [hsplit] at hview
  rw [Execution.execute, Execution.bind_of_ok hview.peekOperand]
  exact hmirrors.pushes hview (ConstantTable.Extends.refl _) (Store.KeepsLayouts.refl _)
    (List.Forall₂.cons hword hwords) hword

/-- The topmost operand is dropped. -/
theorem pop (hmirrors : Mirrors limit activity chain calls) {value : Value} {rest : List Value}
    (hoperands : calls.current.operands = value :: rest) :
    Corresponds limit chain (Execution.execute .pop activity) (.next (calls.withOperands rest)) := by
  obtain ⟨word, words, -, -, hwords, next, hpop, hnext⟩ := hmirrors.exists_operands hoperands
  obtain ⟨later, hlater, hmoves⟩ := hmirrors.goesOn hnext (ConstantTable.Extends.refl _)
    (Store.KeepsLayouts.refl _) hwords
  exact Or.inl ⟨next, later, Execution.bind_of_ok hpop, hlater, hmoves⟩

/-- The two topmost operands change places. -/
theorem swap (hmirrors : Mirrors limit activity chain calls) {upper lower : Value} {rest : List Value}
    (hoperands : calls.current.operands = upper :: lower :: rest) :
    Corresponds limit chain (Execution.execute .swap activity)
      (.next (calls.withOperands (lower :: upper :: rest))) := by
  obtain ⟨upperWord, words, -, hupper, hwords, first, hfirst, hview⟩ := hmirrors.exists_operands hoperands
  obtain ⟨lowerWord, restWords, hlower, hrest, rfl⟩ := List.forall₂_cons_right_iff.mp hwords
  obtain ⟨second, hsecond, hview⟩ := hview.popOperand
  rw [Execution.execute, Execution.bind_of_ok hfirst, Execution.bind_of_ok hsecond]
  rcases hview.pushOperand upperWord with ⟨third, hthird, hview⟩ | ⟨hfull, hneeded⟩
  · rw [Execution.bind_of_ok hthird]
    exact hmirrors.pushes hview (ConstantTable.Extends.refl _) (Store.KeepsLayouts.refl _)
      (List.Forall₂.cons hupper hrest) hlower
  · rw [Execution.bind_of_error hfull]
    have hwords := hmirrors.words_withOperands calls.world calls.constants (lower :: upper :: rest)
    rw [List.length_cons, List.length_cons, ← hrest.length_eq] at hwords
    refine Or.inr ⟨second, rfl, hview.endsAt, ?_⟩
    exact Nat.lt_of_lt_of_eq (by omega) hwords.symm

/-! ### Variables and jumps -/

/-- A variable is read. -/
theorem load (hmirrors : Mirrors limit activity chain calls) {slot : UInt32} {value : Value}
    (hslot : calls.current.locals[slot.toNat]? = some value) :
    Corresponds limit chain (Execution.execute (.load slot) activity)
      (.next (calls.withOperands (value :: calls.current.operands))) := by
  obtain ⟨hinside, hvalue⟩ := List.getElem?_eq_some_iff.mp hslot
  have hlength := hmirrors.current.locals.length_eq
  have hword := List.getElem?_eq_getElem (show slot.toNat < chain.current.locals.length by omega)
  have hholds := hmirrors.current.locals.get (show slot.toNat < chain.current.locals.length by omega) hinside
  have hcount : slot.toNat < activity.frame.routine.unit.slotCount := by
    rw [hmirrors.realizes.frame]
    exact hmirrors.current.width ▸ (show slot.toNat < chain.current.locals.length by omega)
  rw [Execution.execute, Execution.bind_of_ok (Execution.slotOf_eq hcount),
    Execution.bind_of_ok (hmirrors.view.readSlot hword)]
  refine hmirrors.pushes hmirrors.view (ConstantTable.Extends.refl _) (Store.KeepsLayouts.refl _)
    hmirrors.current.operands ?_
  rw [← hvalue]
  exact hholds

/-- A variable is replaced. -/
theorem store (hmirrors : Mirrors limit activity chain calls) {slot : UInt32} {value : Value}
    {rest : List Value} (hoperands : calls.current.operands = value :: rest)
    (hslot : slot.toNat < calls.current.locals.length) :
    Corresponds limit chain (Execution.execute (.store slot) activity)
      (.next { calls with
        current :=
          { calls.current with
            locals := calls.current.locals.set slot.toNat value
            operands := rest } }) := by
  obtain ⟨word, words, -, hword, hwords, first, hfirst, hview⟩ := hmirrors.exists_operands hoperands
  have hinside : slot.toNat < chain.current.locals.length := by
    rw [hmirrors.current.locals.length_eq]
    exact hslot
  have hcount : slot.toNat < activity.frame.routine.unit.slotCount := by
    rw [hmirrors.realizes.frame]
    exact hmirrors.current.width ▸ hinside
  obtain ⟨next, hwrite, hnext⟩ := hview.writeSlot hinside word
  have hexecute : Execution.execute (.store slot) activity = .ok none next := by
    rw [Execution.execute, Execution.bind_of_ok (Execution.slotOf_eq hcount),
      Execution.bind_of_ok hfirst, Execution.bind_of_ok hwrite]
    rfl
  obtain ⟨later, hlater, hmoves⟩ := hmirrors.stays chain.current.offset
    (chain.current.locals.set slot.toNat word) words hnext (ConstantTable.Extends.refl _)
    (Store.KeepsLayouts.refl _) List.length_set (forall₂_set hmirrors.current.locals slot.toNat hword)
    hwords
  rw [hmirrors.current.offset] at hlater
  exact Or.inl ⟨next, later, hexecute, hlater, hmoves⟩

/-- The running frame goes on elsewhere. -/
theorem goto (hmirrors : Mirrors limit activity chain calls) (target : UInt32) :
    Corresponds limit chain (Execution.execute (.goto target) activity)
      (.next (calls.withOffset target.toNat)) := by
  obtain ⟨later, hlater, hmoves⟩ := hmirrors.stays target.toNat chain.current.locals
    chain.current.operands (hmirrors.view.withOffset target.toNat) (ConstantTable.Extends.refl _)
    (Store.KeepsLayouts.refl _) rfl hmirrors.current.locals hmirrors.current.operands
  exact Or.inl ⟨_, later, rfl, hlater, hmoves⟩

/-- The running frame goes on elsewhere when the topmost operand is false. -/
theorem jumpIfFalse (hmirrors : Mirrors limit activity chain calls) (target : UInt32) {value : Value}
    {rest : List Value} (hoperands : calls.current.operands = value :: rest)
    (hinline : ∀ entry ∈ calls.constants.entries, entry.inlineWord? = none) :
    Corresponds limit chain (Execution.execute (.jumpIfFalse target) activity)
      (.next (if value.isFalse then (calls.withOperands rest).withOffset target.toNat
        else calls.withOperands rest)) := by
  obtain ⟨word, words, -, hword, hwords, first, hfirst, hview⟩ := hmirrors.exists_operands hoperands
  rw [Execution.execute, Execution.bind_of_ok hfirst, Execution.bind_of_ok (hview.isFalse hword hinline)]
  split_ifs with hfalse
  · obtain ⟨later, hlater, hmoves⟩ := hmirrors.stays target.toNat chain.current.locals words
      (hview.withOffset target.toNat) (ConstantTable.Extends.refl _) (Store.KeepsLayouts.refl _) rfl
      hmirrors.current.locals hwords
    exact Or.inl ⟨_, later, rfl, hlater, hmoves⟩
  · obtain ⟨later, hlater, hmoves⟩ := hmirrors.goesOn hview (ConstantTable.Extends.refl _)
      (Store.KeepsLayouts.refl _) hwords
    exact Or.inl ⟨_, later, rfl, hlater, hmoves⟩

end Mirrors

end ScriptMachine
