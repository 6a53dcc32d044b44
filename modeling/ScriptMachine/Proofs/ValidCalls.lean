import ScriptMachine.Proofs.ValidWorld

/-!
# Valid calls in progress

Calls in progress are valid when their world and constants are, when all their variables and operands are,
and when each of them is at a safe place of verified code. `CallStack.Valid.step` is progress and
preservation in one: valid calls can always carry their next operation out, what comes of it is valid again,
and a fault is none of broken code.
-/

set_option autoImplicit false
set_option relaxedAutoImplicit false

namespace ScriptMachine

/-- The code of every compiled function can be run. -/
def Registry.Verified (registry : Registry) (table : ConstantTable) : Prop :=
  ∀ (identity : Nat) (routine : Routine),
    registry.functions identity = some (.compiled routine) → routine.unit.Verified table

theorem Registry.Verified.mono {registry : Registry} {table larger : ConstantTable}
    (hextends : table.Extends larger) (hverified : registry.Verified table) : registry.Verified larger :=
  fun identity routine hroutine ↦ (hverified identity routine hroutine).mono hextends

/-- A call runs a known function, and its variables and operands are valid. -/
structure Level.Valid (level : Level) (registry : Registry) (records : List Record) : Prop where
  routine : registry.functions level.routine.identity = some (.compiled level.routine)
  width : level.locals.length = level.routine.unit.slotCount
  locals : ∀ value ∈ level.locals, value.Valid registry records
  operands : ∀ value ∈ level.operands, value.Valid registry records

theorem Level.Valid.mono {level : Level} {registry : Registry} {records later : List Record}
    (hkeeps : Store.KeepsLayouts records later) (hvalid : level.Valid registry records) :
    level.Valid registry later :=
  ⟨hvalid.routine, hvalid.width,
    fun value hvalue ↦ (hvalid.locals value hvalue).mono (Registry.Extends.refl _) hkeeps,
    fun value hvalue ↦ (hvalid.operands value hvalue).mono (Registry.Extends.refl _) hkeeps⟩

namespace CallStack

/-- Calls in progress are valid but for the place of the innermost one. -/
structure Sound (calls : CallStack) (registry : Registry) (known : List Value) : Prop where
  world : calls.world.Valid registry known
  constants : calls.constants.Valid registry
  code : registry.Verified calls.constants
  current : calls.current.Valid registry calls.world.store.records
  callers : ∀ caller ∈ calls.callers, caller.Valid registry calls.world.store.records
  resumes : ∀ caller ∈ calls.callers,
    caller.routine.unit.Safe calls.constants caller.offset (caller.operands.length + 1)

/-- The innermost call is at a safe offset with a number of operands. -/
def SafeAt (calls : CallStack) (offset depth : Nat) : Prop :=
  calls.current.routine.unit.Safe calls.constants offset depth

/-- Calls in progress are valid. -/
structure Valid (calls : CallStack) (registry : Registry) (known : List Value) : Prop
    extends calls.Sound registry known where
  safe : calls.SafeAt calls.current.offset calls.current.operands.length

end CallStack

/-- What comes of an operation is valid, and no fault of broken code. -/
def Progress.Valid (registry : Registry) (known : List Value) : Progress → Prop
  | .next calls => calls.Valid registry known
  | .finished value world constants =>
    world.Valid registry known ∧ constants.Valid registry ∧ registry.Verified constants ∧
      value.Valid registry world.store.records
  | .failed fault world constants =>
    world.Valid registry known ∧ constants.Valid registry ∧ registry.Verified constants ∧
      ¬ fault.Internal

/-! ### Operands of operations -/

/-- What an operation holds in itself is valid. -/
def Operation.Valid (registry : Registry) : Operation → Prop
  | .push value => value.Valid registry []
  | .new layout => registry.layouts layout.identity = some layout
  | _ => True

/-- Operations that are read from code with valid constants are valid. -/
theorem CodeUnit.valid_of_operationAt {unit : CodeUnit} {table : ConstantTable} {registry : Registry}
    (hvalid : table.Valid registry) {offset next : Nat} {operation : Operation}
    (hoperation : unit.operationAt table offset = some (operation, next)) :
    operation.Valid registry := by
  obtain ⟨instruction, -, hresolved, -⟩ := CodeUnit.exists_instruction_of_operationAt hoperation
  cases instruction <;> simp only [Instruction.operation?, Option.map_eq_some_iff] at hresolved
  case constant word =>
    obtain ⟨value, hvalue, rfl⟩ := hresolved
    exact hvalid.valid_of_value? hvalue
  case new word =>
    obtain ⟨layout, hlayout, rfl⟩ := hresolved
    exact hvalid.valid _ (ConstantTable.mem_of_constant? (ConstantTable.layout?_eq_some_iff.mp hlayout))
  case lookup | register | get | put =>
    obtain ⟨name, -, rfl⟩ := hresolved
    trivial
  all_goals
    obtain rfl := Option.some.inj hresolved
    trivial

namespace CallStack.Sound

variable {calls : CallStack} {registry : Registry} {known : List Value}

/-! ### Changes of the innermost call -/

/-- Calls stay valid at a safe place with other valid operands. -/
theorem goesOn (hsound : calls.Sound registry known) {operands : List Value}
    (hoperands : ∀ value ∈ operands, value.Valid registry calls.world.store.records)
    {depth : Nat} (hdepth : operands.length = depth) (hsafe : calls.SafeAt calls.current.offset depth) :
    (calls.withOperands operands).Valid registry known := by
  refine ⟨⟨hsound.world, hsound.constants, hsound.code, ?_, hsound.callers, hsound.resumes⟩, ?_⟩
  · exact ⟨hsound.current.routine, hsound.current.width, hsound.current.locals, hoperands⟩
  · rw [← hdepth] at hsafe
    exact hsafe

/-- Calls stay valid but for their place when the world changes to a valid one with the same objects. -/
theorem withWorld (hsound : calls.Sound registry known) {world : World}
    (hworld : world.Valid registry known)
    (hkeeps : Store.KeepsLayouts calls.world.store.records world.store.records) :
    (calls.withWorld world).Sound registry known :=
  ⟨hworld, hsound.constants, hsound.code, hsound.current.mono hkeeps,
    fun caller hcaller ↦ (hsound.callers caller hcaller).mono hkeeps, hsound.resumes⟩

/-- Calls stay valid when a valid value comes back through a word. -/
theorem pushCarried (hsound : calls.Sound registry known) {value : Value} {operands : List Value}
    (hvalue : value.Valid registry calls.world.store.records)
    (hoperands : ∀ value ∈ operands, value.Valid registry calls.world.store.records)
    {depth : Nat} (hdepth : operands.length + 1 = depth)
    (hsafe : calls.SafeAt calls.current.offset depth) :
    (calls.pushCarried value operands).Valid registry known := by
  have hextends := calls.constants.carry_extends value
  obtain ⟨htable, hcarried⟩ := hsound.constants.carry hvalue
  have hall : ∀ found ∈ (calls.constants.carry value).1 :: operands,
      found.Valid registry calls.world.store.records := List.forall_mem_cons.mpr ⟨hcarried, hoperands⟩
  refine ⟨⟨hsound.world, htable, hsound.code.mono hextends, ?_, hsound.callers,
    fun caller hcaller ↦ (hsound.resumes caller hcaller).mono hextends⟩, ?_⟩
  · exact ⟨hsound.current.routine, hsound.current.width, hsound.current.locals, hall⟩
  · rw [← hdepth] at hsafe
    exact hsafe.mono hextends

/-! ### Calls and returns -/

/-- Calling a value with valid operands has a valid outcome. -/
theorem call (hsound : calls.Sound registry known) {callee receiver : Value}
    {arguments rest : List Value} (hcallee : callee.Valid registry calls.world.store.records)
    (hreceiver : receiver.Valid registry calls.world.store.records)
    (harguments : ∀ value ∈ arguments, value.Valid registry calls.world.store.records)
    (hrest : ∀ value ∈ rest, value.Valid registry calls.world.store.records)
    (hsafe : calls.SafeAt calls.current.offset (rest.length + 1)) :
    ∃ progress : Progress, calls.call callee receiver arguments rest = some progress ∧
      progress.Valid registry known := by
  have hrefused : ∀ fault : Fault, ¬ fault.Internal →
      (Progress.failed fault calls.world calls.constants).Valid registry known :=
    fun fault hinternal ↦ ⟨hsound.world, hsound.constants, hsound.code, hinternal⟩
  unfold CallStack.call
  split
  case h_1 identity name operation =>
    have happlied := hsound.world.applyNative operation hreceiver harguments
    cases hresult : World.applyNative operation receiver arguments calls.world with
    | ok value world =>
      rw [hresult] at happlied
      obtain ⟨hworld, hstore, hvalue⟩ := happlied
      have hkeeps : Store.KeepsLayouts calls.world.store.records world.store.records := by
        rw [hstore]
        exact Store.KeepsLayouts.refl _
      refine ⟨_, rfl, (hsound.withWorld hworld hkeeps).pushCarried ?_ ?_ rfl hsafe⟩
      · exact hvalue.mono (Registry.Extends.refl _) hkeeps
      · exact fun found hfound ↦ (hrest found hfound).mono (Registry.Extends.refl _) hkeeps
    | error fault world =>
      rw [hresult] at happlied
      obtain ⟨hworld, -, hinternal⟩ := happlied
      exact ⟨_, rfl, hworld, hsound.constants, hsound.code, hinternal⟩
  case h_2 routine =>
    have hverified := hsound.code _ _ hcallee
    have hslots : ¬ routine.unit.slotCount < routine.unit.parameterCount :=
      Nat.not_lt_of_le hverified.parameters
    by_cases harity : arguments.length + 1 ≠ routine.unit.parameterCount
    · rw [if_pos harity]
      exact ⟨_, rfl, hrefused _ (by simp [Fault.Internal])⟩
    · rw [if_neg harity, if_neg hslots]
      have hcount : arguments.length + 1 = routine.unit.parameterCount := not_not.mp harity
      refine ⟨_, rfl, ⟨hsound.world, hsound.constants, hsound.code, ?_, ?_, ?_⟩, hverified.safe⟩
      · refine ⟨hcallee, ?_, ?_, by rintro _ ⟨⟩⟩
        · simp only [CallStack.enter, initialLocals, List.cons_append, List.length_cons,
            List.length_append, List.length_replicate]
          omega
        · intro value hvalue
          simp only [CallStack.enter, initialLocals, List.cons_append, List.mem_cons, List.mem_append,
            List.mem_replicate] at hvalue
          rcases hvalue with rfl | hargument | ⟨-, rfl⟩
          · exact hreceiver
          · exact harguments value hargument
          · trivial
      · refine List.forall_mem_cons.mpr ⟨?_, hsound.callers⟩
        exact ⟨hsound.current.routine, hsound.current.width, hsound.current.locals, hrest⟩
      · exact List.forall_mem_cons.mpr ⟨hsafe, hsound.resumes⟩
  case h_3 => exact ⟨_, rfl, hrefused _ (by simp [Fault.Internal])⟩

/-- Returning a valid value has a valid outcome. -/
theorem leave (hsound : calls.Sound registry known) {value : Value}
    (hvalue : value.Valid registry calls.world.store.records) :
    (calls.leave value).Valid registry known := by
  unfold CallStack.leave
  cases hcallers : calls.callers with
  | nil => exact ⟨hsound.world, hsound.constants, hsound.code, hvalue⟩
  | cons caller callers =>
    have hall := hsound.callers
    have hresume := hsound.resumes
    rw [hcallers] at hall hresume
    obtain ⟨hcaller, hothers⟩ := List.forall_mem_cons.mp hall
    obtain ⟨hresumes, hlater⟩ := List.forall_mem_cons.mp hresume
    refine ⟨⟨hsound.world, hsound.constants, hsound.code, ?_, hothers, hlater⟩, hresumes⟩
    exact ⟨hcaller.routine, hcaller.width, hcaller.locals, List.forall_mem_cons.mpr ⟨hvalue, hcaller.operands⟩⟩

/-! ### Operations -/

/-- Valid calls that have the operands and the slots for an operation can carry it out, with a valid
outcome. -/
theorem perform (hsound : calls.Sound registry known) {operation : Operation}
    (hoperation : operation.Valid registry) (hpops : operation.pops ≤ calls.current.operands.length)
    (hslot : ∀ slot ∈ operation.slot?, slot < calls.current.routine.unit.slotCount)
    (hsafe : ∀ target ∈ operation.successors calls.current.offset,
      calls.SafeAt target (calls.current.operands.length - operation.pops + operation.pushes)) :
    ∃ progress : Progress, calls.perform operation = some progress ∧
      progress.Valid registry known := by
  have hoperands := hsound.current.operands
  have hrefused : ∀ fault : Fault, ¬ fault.Internal →
      (Progress.failed fault calls.world calls.constants).Valid registry known :=
    fun fault hinternal ↦ ⟨hsound.world, hsound.constants, hsound.code, hinternal⟩
  unfold CallStack.perform
  generalize hstack : calls.current.operands = operands at hpops hsafe hoperands
  cases operation
  case push value =>
    refine ⟨_, rfl, hsound.goesOn (List.forall_mem_cons.mpr ⟨?_, hoperands⟩) rfl (hsafe _ List.mem_cons_self)⟩
    exact hoperation.mono (Registry.Extends.refl _) (Store.keepsLayouts_append [] _)
  case lookup name =>
    exact ⟨_, rfl, hsound.pushCarried (hsound.world.globals name) hoperands rfl
      (hsafe _ List.mem_cons_self)⟩
  case register name =>
    obtain _ | ⟨value, rest⟩ := operands
    · exact absurd hpops (by simp [Operation.pops])
    · obtain ⟨hvalue, hrest⟩ := List.forall_mem_cons.mp hoperands
      exact ⟨_, rfl, (hsound.withWorld (hsound.world.register name hvalue) (Store.KeepsLayouts.refl _)).goesOn hrest rfl
        (hsafe _ List.mem_cons_self)⟩
  case load slot =>
    have hinside : slot < calls.current.locals.length := by
      rw [hsound.current.width]
      exact hslot slot rfl
    dsimp only
    rw [List.getElem?_eq_getElem hinside]
    have hvalue := hsound.current.locals _ (List.getElem_mem hinside)
    exact ⟨_, rfl, hsound.goesOn (List.forall_mem_cons.mpr ⟨hvalue, hoperands⟩) rfl (hsafe _ List.mem_cons_self)⟩
  case store slot =>
    obtain _ | ⟨value, rest⟩ := operands
    · exact absurd hpops (by simp [Operation.pops])
    · obtain ⟨hvalue, hrest⟩ := List.forall_mem_cons.mp hoperands
      have hinside : slot < calls.current.locals.length := by
        rw [hsound.current.width]
        exact hslot slot rfl
      dsimp only
      rw [if_pos hinside]
      refine ⟨_, rfl, ⟨hsound.world, hsound.constants, hsound.code, ?_, hsound.callers, hsound.resumes⟩,
        hsafe _ List.mem_cons_self⟩
      refine ⟨hsound.current.routine, List.length_set.trans hsound.current.width, fun found hfound ↦ ?_, hrest⟩
      rcases List.mem_or_eq_of_mem_set hfound with hold | rfl
      · exact hsound.current.locals found hold
      · exact hvalue
  case duplicate =>
    obtain _ | ⟨value, rest⟩ := operands
    · exact absurd hpops (by simp [Operation.pops])
    · have hvalue := hoperands value List.mem_cons_self
      exact ⟨_, rfl, hsound.goesOn (List.forall_mem_cons.mpr ⟨hvalue, hoperands⟩) rfl (hsafe _ List.mem_cons_self)⟩
  case pop =>
    obtain _ | ⟨value, rest⟩ := operands
    · exact absurd hpops (by simp [Operation.pops])
    · exact ⟨_, rfl, hsound.goesOn (List.forall_mem_cons.mp hoperands).2 rfl (hsafe _ List.mem_cons_self)⟩
  case swap =>
    obtain _ | ⟨upper, _ | ⟨lower, rest⟩⟩ := operands
    · exact absurd hpops (by simp [Operation.pops])
    · exact absurd hpops (by simp [Operation.pops])
    · obtain ⟨hupper, hlower, hrest⟩ := List.forall_mem_cons.mp hoperands |>.imp_right List.forall_mem_cons.mp
      exact ⟨_, rfl, hsound.goesOn (List.forall_mem_cons.mpr ⟨hlower, List.forall_mem_cons.mpr ⟨hupper, hrest⟩⟩) rfl
        (hsafe _ List.mem_cons_self)⟩
  case call argumentCount =>
    obtain ⟨receiver, callee, rest, hdrop⟩ := Operation.exists_drop_of_call hpops
    dsimp only
    rw [hdrop]
    have hlength := congrArg List.length hdrop
    simp only [List.length_drop, List.length_cons] at hlength
    have hlower : ∀ value ∈ receiver :: callee :: rest,
        value.Valid registry calls.world.store.records := by
      intro value hvalue
      rw [← hdrop] at hvalue
      exact hoperands value (List.mem_of_mem_drop hvalue)
    have hplace := hsafe _ List.mem_cons_self
    rw [show operands.length - Operation.pops (.call argumentCount) + Operation.pushes (.call argumentCount) =
      rest.length + 1 by simp only [Operation.pops, Operation.pushes]; omega] at hplace
    refine hsound.call (hlower callee (by simp)) (hlower receiver (by simp)) (fun value hvalue ↦ ?_)
      (fun value hvalue ↦ hlower value (by simp [hvalue])) hplace
    exact hoperands value (List.mem_of_mem_take (List.mem_reverse.mp hvalue))
  case ret =>
    obtain _ | ⟨value, rest⟩ := operands
    · exact absurd hpops (by simp [Operation.pops])
    · exact ⟨_, rfl, hsound.leave (hoperands value List.mem_cons_self)⟩
  case goto target =>
    refine ⟨_, rfl, ⟨hsound.world, hsound.constants, hsound.code, ?_, hsound.callers, hsound.resumes⟩, ?_⟩
    · exact ⟨hsound.current.routine, hsound.current.width, hsound.current.locals, hsound.current.operands⟩
    · have hplace := hsafe target List.mem_cons_self
      rw [← hstack] at hplace
      exact hplace
  case jumpIfFalse target =>
    obtain _ | ⟨value, rest⟩ := operands
    · exact absurd hpops (by simp [Operation.pops])
    · have hrest := (List.forall_mem_cons.mp hoperands).2
      dsimp only
      split_ifs
      · refine ⟨_, rfl, ⟨hsound.world, hsound.constants, hsound.code, ?_, hsound.callers,
          hsound.resumes⟩, hsafe target List.mem_cons_self⟩
        exact ⟨hsound.current.routine, hsound.current.width, hsound.current.locals, hrest⟩
      · exact ⟨_, rfl, hsound.goesOn hrest rfl (hsafe _ (by simp [Operation.successors]))⟩
  case new layout =>
    simp only [Operation.pops] at hpops
    dsimp only
    rw [if_neg (Nat.not_lt_of_le hpops)]
    refine ⟨_, rfl, ?_⟩
    have hfields : ∀ value ∈ (operands.take layout.fieldCount).reverse,
        value.Valid registry calls.world.store.records :=
      fun value hvalue ↦ hoperands value (List.mem_of_mem_take (List.mem_reverse.mp hvalue))
    unfold CallStack.proceed
    cases hmade : calls.world.allocate layout (operands.take layout.fieldCount).reverse with
    | ok made =>
      obtain ⟨object, world⟩ := made
      obtain ⟨hworld, hobject, hkeeps⟩ := hsound.world.allocate hoperation hfields
        (by simp [Nat.min_eq_left hpops]) hmade
      refine (hsound.withWorld hworld hkeeps).goesOn (List.forall_mem_cons.mpr ⟨hobject, fun found hfound ↦ ?_⟩) ?_
        (hsafe _ List.mem_cons_self)
      · exact (hoperands found (List.mem_of_mem_drop hfound)).mono (Registry.Extends.refl _) hkeeps
      · simp [Operation.pops, Operation.pushes]
    | error fault => exact hrefused fault (World.Valid.allocate_fault hmade)
  case get name =>
    obtain _ | ⟨receiver, rest⟩ := operands
    · exact absurd hpops (by simp [Operation.pops])
    · refine ⟨_, rfl, ?_⟩
      unfold CallStack.proceed
      cases hread : calls.world.readField receiver name with
      | ok value =>
        have hrest := (List.forall_mem_cons.mp hoperands).2
        exact (hsound.withWorld hsound.world (Store.KeepsLayouts.refl _)).goesOn
          (List.forall_mem_cons.mpr ⟨hsound.world.readField hread, hrest⟩) rfl (hsafe _ List.mem_cons_self)
      | error fault => exact hrefused fault (World.Valid.readField_fault hread)
  case put name =>
    obtain _ | ⟨value, _ | ⟨receiver, rest⟩⟩ := operands
    · exact absurd hpops (by simp [Operation.pops])
    · exact absurd hpops (by simp [Operation.pops])
    · dsimp only
      cases hwritten : calls.world.writeField receiver name value with
      | ok world =>
        obtain ⟨hworld, hkeeps⟩ := hsound.world.writeField (hoperands value List.mem_cons_self) hwritten
        refine ⟨_, rfl, (hsound.withWorld hworld hkeeps).goesOn ?_ rfl (hsafe _ List.mem_cons_self)⟩
        intro found hfound
        exact (hoperands found (by simp [hfound])).mono (Registry.Extends.refl _) hkeeps
      | error fault => exact ⟨_, rfl, hrefused fault (World.Valid.writeField_fault hwritten)⟩

end CallStack.Sound

namespace CallStack.Valid

variable {calls : CallStack} {registry : Registry} {known : List Value}

/-- Valid calls can carry their next operation out, with a valid outcome. -/
theorem step (hvalid : calls.Valid registry known) :
    ∃ progress : Progress, calls.step = some progress ∧ progress.Valid registry known := by
  obtain @⟨_, _, next, operation, hoperation, hpops, hslot, -, hsafe⟩ := hvalid.safe
  unfold CallStack.step
  rw [hoperation]
  have hmoved : (calls.withOffset next).Sound registry known :=
    ⟨hvalid.world, hvalid.constants, hvalid.code, ⟨hvalid.current.routine, hvalid.current.width,
      hvalid.current.locals, hvalid.current.operands⟩, hvalid.callers, hvalid.resumes⟩
  exact hmoved.perform (CodeUnit.valid_of_operationAt hvalid.constants hoperation) hpops hslot hsafe

end CallStack.Valid

end ScriptMachine
