import ScriptMachine.Proofs.Mirroring

/-!
# The machine mirrors whole calls

What is left of the instructions are those that reach beyond the running frame: they read and bind globals,
make objects and use their fields, begin calls and return from them. `Mirrors.execute` puts all
instructions together, and `Mirrors.step` is one step of the machine: what it does to words is what the
calls do to values, unless the stack is full.
-/

set_option autoImplicit false
set_option relaxedAutoImplicit false

namespace ScriptMachine

/-! ### Entering and leaving frames -/

/-- The frame of a routine is built over its receiver and arguments, or there is no room for it. -/
theorem Activity.Realizes.enter {activity : Activity} {snapshot : Snapshot}
    (hrealizes : activity.Realizes snapshot) {lower arguments : List Word} {routine : Routine}
    {count : Nat} (hcontents : snapshot.contents = lower ++ arguments)
    (hcount : arguments.length = count + 1) (harity : count + 1 = routine.unit.parameterCount)
    (hslots : routine.unit.parameterCount ≤ routine.unit.slotCount) (returnOffset caller : Word) :
    (∃ next : Activity, Execution.enter routine count returnOffset caller activity = .ok () next ∧
        next.Realizes { snapshot with
          contents := lower ++ (arguments ++
              List.replicate (routine.unit.slotCount - routine.unit.parameterCount) Word.undefined) ++
            [⟨UInt32.ofNat snapshot.base⟩, returnOffset, caller]
          base := lower.length }) ∨
      Execution.enter routine count returnOffset caller activity =
          .error (.stackOverflow snapshot.limit) activity ∧
        snapshot.limit < lower.length + routine.unit.slotCount + recordSize := by
  have htop := hrealizes.top_eq
  rw [hcontents, List.length_append] at htop
  have hbase : activity.machine.stack.top - count - 1 = lower.length := by omega
  unfold Execution.enter
  dsimp only
  rw [if_neg (not_not.mpr harity), if_neg (Nat.not_lt_of_le hslots), hbase]
  split
  case isTrue hroom =>
    obtain ⟨hwords, hfits, hnewBase, hlimit⟩ := Stack.contents_enterFrame hrealizes.fits returnOffset
      caller (hrealizes.contents.trans hcontents) (hcount.trans harity) hslots hroom
    rw [hrealizes.base] at hwords
    exact Or.inl ⟨_, rfl, hrealizes.mapStack hfits hwords hnewBase hlimit⟩
  case isFalse hfull =>
    have hneeded := Stack.limit_lt_of_not_hasRoom hfull
    rw [hrealizes.limit] at hneeded ⊢
    exact Or.inr ⟨rfl, hneeded⟩

/-- The frame of a call that begins, given the words of its receiver and its arguments. -/
def Segment.entered (frame : Frame) (words : List Word) : Segment :=
  ⟨frame, 0,
    words ++ List.replicate (frame.routine.unit.slotCount - frame.routine.unit.parameterCount) Word.undefined,
    []⟩

/-- In the frame of a call that begins, the variables are receiver and arguments and otherwise undefined. -/
theorem Segment.holds_entered {table : ConstantTable} {records : List Record} {routine : Routine} {word : Word}
    {words : List Word} {values : List Value}
    (hword : table.constant? word = some (.function (.compiled routine)))
    (hundefined : table.entries[0]? = some .undefined)
    (hslots : routine.unit.parameterCount ≤ routine.unit.slotCount)
    (hwords : table.HoldsAll records words values) (hcount : values.length = routine.unit.parameterCount) :
    (Segment.entered ⟨routine, word⟩ words).Holds table records
      ⟨routine, 0,
        values ++ List.replicate (routine.unit.slotCount - routine.unit.parameterCount) .undefined, []⟩ := by
  refine ⟨rfl, hword, rfl, ?_,
    List.rel_append hwords (ConstantTable.HoldsAll.replicate (ConstantTable.value?_undefined _ hundefined) _),
    List.Forall₂.nil⟩
  have hlength := hwords.length_eq
  simp only [Segment.entered, List.length_append, List.length_replicate]
  omega

/-- A chain with the frame of another call on top, for which the running frame keeps some operands. -/
def FrameChain.calling (chain : FrameChain) (frame : Frame) (words below : List Word) : FrameChain :=
  { chain with
    current := Segment.entered frame words
    callers := { chain.current with operands := below } :: chain.callers }

/-- What a machine has on its stack when another call has begun. -/
theorem FrameChain.snapshot_calling (chain : FrameChain) (frame : Frame) (words below : List Word)
    (world : World) (constants : ConstantTable) (limit : Nat) :
    (chain.calling frame words below).snapshot world constants limit =
      ⟨world, constants, limit,
        (chain.floor ++ below.reverse ++ [frame.word]) ++ (words ++
            List.replicate (frame.routine.unit.slotCount - frame.routine.unit.parameterCount) Word.undefined) ++
          [⟨UInt32.ofNat chain.base⟩, ⟨UInt32.ofNat chain.current.offset⟩, chain.current.frame.word],
        (chain.floor ++ below.reverse ++ [frame.word]).length, frame, 0⟩ := by
  simp [calling, Segment.entered, snapshot, contents, stacked, floor, lower, record, savedOffset, savedWord,
    base, baseOf]
  omega

namespace Execution

variable {count : Nat} {activity : Activity}

/-- A call of a native function decodes its operands and carries the function out. -/
theorem call_of_native (hoperands : ¬ activity.machine.stack.top < count + 2) {identity : Nat}
    {name : String} {operation : Native}
    (hfunction : functionOf (activity.machine.stack.cell (activity.machine.stack.top - count - 2)) activity =
      .ok (.native identity name operation) activity) :
    call count activity =
      (do
        let receiver ← decode (activity.machine.stack.cell (activity.machine.stack.top - count - 1))
        let arguments ← decodeAll (activity.machine.stack.slice (activity.machine.stack.top - count) count)
        let result ← applyNative operation receiver arguments
        let word ← encode result
        cutStack (activity.machine.stack.top - count - 2)
        push word : Execution Unit) activity := by
  unfold call
  dsimp only
  rw [if_neg hoperands, bind_of_ok hfunction]

/-- A call of a compiled function builds its frame. -/
theorem call_of_compiled (hoperands : ¬ activity.machine.stack.top < count + 2) {routine : Routine}
    (hfunction : functionOf (activity.machine.stack.cell (activity.machine.stack.top - count - 2)) activity =
      .ok (.compiled routine) activity) :
    call count activity =
      (do
        enter routine count ⟨UInt32.ofNat activity.offset⟩ activity.frame.word
        modify fun entered ↦
          { entered with
            frame := ⟨routine, activity.machine.stack.cell (activity.machine.stack.top - count - 2)⟩
            offset := 0 } : Execution Unit) activity := by
  unfold call
  dsimp only
  rw [if_neg hoperands, bind_of_ok hfunction]

/-- A call of a value that is no function is refused. -/
theorem call_of_error (hoperands : ¬ activity.machine.stack.top < count + 2) {fault : Fault}
    (hfunction : functionOf (activity.machine.stack.cell (activity.machine.stack.top - count - 2)) activity =
      .error fault activity) :
    call count activity = .error fault activity := by
  unfold call
  dsimp only
  rw [if_neg hoperands, bind_of_error hfunction]

end Execution

namespace Mirrors

variable {limit : Nat} {activity : Activity} {chain : FrameChain} {calls : CallStack}
  {registry : Registry} {known : List Value} {operands : List Word}

/-! ### Globals -/

/-- A global is read. -/
theorem lookup (hmirrors : Mirrors limit activity chain calls) (hsound : calls.Sound registry known)
    {word : Word} {name : String} (hname : calls.constants.text? word = some name) :
    Corresponds limit chain (Execution.execute (.lookup word) activity)
      (.next (calls.pushCarried (calls.world.globals.lookup name) calls.current.operands)) := by
  have hextends := calls.constants.carry_extends (calls.world.globals.lookup name)
  obtain ⟨encoded, next, hencode, hnext, hvalue⟩ :=
    hmirrors.view.encode (hsound.world.globals name).present
  rw [Execution.execute, Execution.bind_of_ok (hmirrors.view.nameOf hname),
    Execution.bind_of_ok (hmirrors.view.lookup name)]
  refine (congrArg (fun result ↦ Corresponds limit chain result _)
    (Execution.bind_of_ok hencode)).mpr ?_
  exact hmirrors.pushes hnext hextends (Store.KeepsLayouts.refl _)
    (hmirrors.current.operands.mono hextends (Store.KeepsLayouts.refl _)) hvalue

/-- A global is bound. -/
theorem register (hmirrors : Mirrors limit activity chain calls) {word : Word} {name : String}
    {value : Value} {rest : List Value} (hname : calls.constants.text? word = some name)
    (hoperands : calls.current.operands = value :: rest) :
    Corresponds limit chain (Execution.execute (.register word) activity)
      (.next ((calls.withWorld (calls.world.register name value)).withOperands rest)) := by
  obtain ⟨top, words, -, htop, hwords, first, hfirst, hview⟩ := hmirrors.exists_operands hoperands
  obtain ⟨next, hregister, hnext⟩ := hview.register name value
  have hexecute : Execution.execute (.register word) activity = .ok none next := by
    rw [Execution.execute, Execution.bind_of_ok (hmirrors.view.nameOf hname),
      Execution.bind_of_ok hfirst, Execution.bind_of_ok (hview.decode htop),
      Execution.bind_of_ok hregister]
    rfl
  obtain ⟨later, hlater, hmoves⟩ := hmirrors.goesOn hnext (ConstantTable.Extends.refl _)
    (Store.KeepsLayouts.refl _) hwords
  exact Or.inl ⟨next, later, hexecute, hlater, hmoves⟩

/-! ### Objects -/

/-- An object is made of the topmost operands. -/
theorem new (hmirrors : Mirrors limit activity chain calls) {word : Word} {layout : Class}
    (hlayout : calls.constants.layout? word = some layout)
    (hcount : ¬ calls.current.operands.length < layout.fieldCount) :
    Corresponds limit chain (Execution.execute (.new word) activity)
      (calls.proceed (calls.current.operands.drop layout.fieldCount)
        (calls.world.allocate layout (calls.current.operands.take layout.fieldCount).reverse)) := by
  have hlength := hmirrors.current.operands.length_eq
  let above := chain.current.operands.take layout.fieldCount
  let rest := chain.current.operands.drop layout.fieldCount
  have habove : above.length = layout.fieldCount := List.length_take_of_le (by omega)
  have hview : activity.Realizes (chain.view calls.world calls.constants limit (above ++ rest)) := by
    rw [List.take_append_drop]
    exact hmirrors.view
  have htop := hview.top_eq_operands
  rw [List.length_append, habove] at htop
  have hfirst : activity.machine.stack.top - layout.fieldCount = (chain.floor ++ rest.reverse).length := by
    rw [List.length_append, List.length_reverse]
    omega
  have hslice : activity.machine.stack.slice (chain.floor ++ rest.reverse).length layout.fieldCount =
      above.reverse := by
    have hcontents : activity.machine.stack.contents =
        (chain.floor ++ rest.reverse) ++ above.reverse ++ [] := by
      rw [hview.contents]
      simp [FrameChain.view]
    have hread := Stack.slice_eq _ _ _ hcontents
    rwa [above.length_reverse, habove] at hread
  have hfields : calls.constants.HoldsAll calls.world.store.records above.reverse
      (calls.current.operands.take layout.fieldCount).reverse :=
    List.rel_reverse (List.forall₂_take layout.fieldCount hmirrors.current.operands)
  have hrest : calls.constants.HoldsAll calls.world.store.records rest
      (calls.current.operands.drop layout.fieldCount) :=
    List.forall₂_drop layout.fieldCount hmirrors.current.operands
  have hmade := hview.allocate (ConstantTable.layout?_eq_some_iff.mp hlayout) hfields
  dsimp only [FrameChain.view] at hmade
  have hconstruct : Execution.construct word activity =
      (do
        let reference ← Execution.allocate word above.reverse
        Execution.cutStack (chain.floor ++ rest.reverse).length
        Execution.push reference : Execution Unit) activity := by
    rw [Execution.construct, Execution.bind_of_ok (hview.classOf hlayout),
      Execution.bind_of_ok (show (get : Execution Activity) activity = .ok activity activity from rfl),
      if_neg (by omega), hfirst, hslice]
  unfold CallStack.proceed
  cases hallocated : calls.world.allocate layout
      (calls.current.operands.take layout.fieldCount).reverse with
  | ok made =>
    obtain ⟨object, world⟩ := made
    rw [hallocated] at hmade
    obtain ⟨reference, first, hallocate, hfirstView, hkeeps, hvalue⟩ := hmade
    have hcutView : first.Realizes (chain.view world calls.constants limit (above ++ rest)) := hfirstView
    obtain ⟨second, hcut, hsecond⟩ := hcutView.cutOperands
    have hreached : Execution.construct word activity = Execution.push reference second := by
      rw [hconstruct, Execution.bind_of_ok hallocate, Execution.bind_of_ok hcut]
    have hexecute : Execution.execute (.new word) activity =
        (do Execution.push reference; return none : Execution (Option Value)) second :=
      Execution.bind_of_eq hreached
    rw [hexecute]
    exact hmirrors.pushes hsecond (ConstantTable.Extends.refl _) hkeeps
      (hrest.mono (ConstantTable.Extends.refl _) hkeeps) hvalue
  | error fault =>
    rw [hallocated] at hmade
    have hexecute : Execution.execute (.new word) activity = .error fault activity :=
      Execution.bind_of_error (hconstruct.trans (Execution.bind_of_error hmade))
    exact ⟨activity, hexecute, hmirrors.view.endsAt⟩

/-- A field is read. -/
theorem readField (hmirrors : Mirrors limit activity chain calls) (hsound : calls.Sound registry known)
    {word : Word} {name : String} {receiver : Value} {rest : List Value}
    (hname : calls.constants.text? word = some name)
    (hoperands : calls.current.operands = receiver :: rest) :
    Corresponds limit chain (Execution.execute (.get word) activity)
      (calls.proceed rest
        ((calls.world.readField receiver name).map fun value ↦ (value, calls.world))) := by
  obtain ⟨top, words, -, htop, hwords, first, hfirst, hview⟩ := hmirrors.exists_operands hoperands
  have hreceiver : receiver.Valid registry calls.world.store.records :=
    hsound.current.operands receiver (hoperands ▸ List.mem_cons_self)
  have hobject := hview.objectOf htop fun reference hmem ↦ by cases hsound.constants.inline _ hmem
  unfold CallStack.proceed
  rw [Execution.execute, Execution.bind_of_ok (hmirrors.view.nameOf hname), Execution.bind_of_ok hfirst]
  cases receiver
  case object reference =>
    cases hread : calls.world.readField (.object reference) name with
    | ok value =>
      obtain ⟨field, hfield, hvalue⟩ := hview.readField hreceiver.present hsound.world.shaped
        hsound.constants.undefined hread
      rw [Execution.bind_of_ok hobject, Execution.bind_of_ok hfield]
      exact hmirrors.pushes hview (ConstantTable.Extends.refl _) (Store.KeepsLayouts.refl _) hwords hvalue
    | error fault =>
      unfold World.readField at hread
      dsimp only at hread
      split at hread
      case h_1 => cases hread
      case h_2 => split at hread <;> cases hread
  all_goals
    rw [Execution.bind_of_error hobject]
    exact ⟨first, rfl, hview.endsAt⟩

/-- A field is replaced. -/
theorem writeField (hmirrors : Mirrors limit activity chain calls) (hsound : calls.Sound registry known)
    {word : Word} {name : String} {value receiver : Value} {rest : List Value}
    (hname : calls.constants.text? word = some name)
    (hoperands : calls.current.operands = value :: receiver :: rest) :
    Corresponds limit chain (Execution.execute (.put word) activity)
      (match calls.world.writeField receiver name value with
      | .ok world => .next ((calls.withWorld world).withOperands rest)
      | .error fault => .failed fault calls.world calls.constants) := by
  obtain ⟨top, words, -, htop, hwords, first, hfirst, hview⟩ := hmirrors.exists_operands hoperands
  obtain ⟨lower, below, hlower, hbelow, rfl⟩ := List.forall₂_cons_right_iff.mp hwords
  obtain ⟨second, hsecond, hview⟩ := hview.popOperand
  have hreceiver : receiver.Valid registry calls.world.store.records :=
    hsound.current.operands receiver (hoperands ▸ List.mem_cons_of_mem _ List.mem_cons_self)
  have hobject := hview.objectOf hlower fun reference hmem ↦ by cases hsound.constants.inline _ hmem
  rw [Execution.execute, Execution.bind_of_ok (hmirrors.view.nameOf hname), Execution.bind_of_ok hfirst,
    Execution.bind_of_ok hsecond]
  cases receiver
  case object reference =>
    rw [Execution.bind_of_ok hobject]
    have hwritten := hview.writeField name hreceiver.present hsound.world.shaped htop
    dsimp only [FrameChain.view] at hwritten
    cases hresult : calls.world.writeField (.object reference) name value with
    | ok world =>
      rw [hresult] at hwritten
      obtain ⟨next, hwrite, hnext, hkeeps⟩ := hwritten
      obtain ⟨later, hlater, hmoves⟩ := hmirrors.goesOn hnext (ConstantTable.Extends.refl _) hkeeps
        (ConstantTable.HoldsAll.mono (ConstantTable.Extends.refl _) hkeeps hbelow)
      exact Or.inl ⟨next, later, Execution.bind_of_ok hwrite, hlater, hmoves⟩
    | error fault =>
      rw [hresult] at hwritten
      exact ⟨second, Execution.bind_of_error hwritten, hview.endsAt⟩
  all_goals
    rw [Execution.bind_of_error hobject]
    exact ⟨second, rfl, hview.endsAt⟩

/-! ### Calls -/

/-- The operands of a call, on the stack and as values: arguments, receiver and function, with the
rest of the operands below them. -/
theorem exists_call (hmirrors : Mirrors limit activity chain calls) {count : Nat}
    {receiver callee : Value} {rest : List Value}
    (hoperands : calls.current.operands.drop count = receiver :: callee :: rest) :
    ∃ (arguments : List Word) (receiverWord calleeWord : Word) (words : List Word),
      chain.current.operands = arguments ++ receiverWord :: calleeWord :: words ∧
      arguments.length = count ∧
      calls.constants.HoldsAll calls.world.store.records arguments (calls.current.operands.take count) ∧
      calls.constants.value? calls.world.store.records receiverWord = some receiver ∧
      calls.constants.value? calls.world.store.records calleeWord = some callee ∧
      calls.constants.HoldsAll calls.world.store.records words rest := by
  have hdropped := List.forall₂_drop count hmirrors.current.operands
  rw [hoperands] at hdropped
  obtain ⟨receiverWord, lower, hreceiver, hlower, hsplit⟩ := List.forall₂_cons_right_iff.mp hdropped
  obtain ⟨calleeWord, words, hcallee, hwords, rfl⟩ := List.forall₂_cons_right_iff.mp hlower
  refine ⟨chain.current.operands.take count, receiverWord, calleeWord, words, ?_, ?_,
    List.forall₂_take count hmirrors.current.operands, hreceiver, hcallee, hwords⟩
  · rw [← hsplit, List.take_append_drop]
  · have hlength := congrArg List.length hsplit
    simp only [List.length_drop, List.length_cons] at hlength
    exact List.length_take_of_le (by omega)

/-- Where the words of a call lie on the stack. -/
theorem call_cells (hview : activity.Realizes (chain.view calls.world calls.constants limit operands))
    {arguments words : List Word} {receiver callee : Word}
    (hsplit : operands = arguments ++ receiver :: callee :: words) :
    activity.machine.stack.top - arguments.length = (chain.floor ++ words.reverse).length + 2 ∧
      activity.machine.stack.cell (chain.floor ++ words.reverse).length = callee ∧
      activity.machine.stack.cell ((chain.floor ++ words.reverse).length + 1) = receiver ∧
      activity.machine.stack.slice ((chain.floor ++ words.reverse).length + 2) arguments.length =
        arguments.reverse := by
  have htop := hview.top_eq_operands
  have hcontents : activity.machine.stack.contents =
      (chain.floor ++ words.reverse) ++ callee :: receiver :: arguments.reverse := by
    rw [hview.contents, hsplit]
    simp [FrameChain.view]
  have hreceiver : activity.machine.stack.contents =
      ((chain.floor ++ words.reverse) ++ [callee]) ++ receiver :: arguments.reverse := by
    rw [hcontents]
    simp
  have harguments : activity.machine.stack.contents =
      ((chain.floor ++ words.reverse) ++ [callee, receiver]) ++ arguments.reverse ++ [] := by
    rw [hcontents]
    simp
  refine ⟨?_, Stack.cell_eq _ _ hcontents, ?_, ?_⟩
  · rw [hsplit] at htop
    simp only [List.length_append, List.length_cons, List.length_reverse] at htop ⊢
    omega
  · have hread := Stack.cell_eq _ _ hreceiver
    have hposition : ((chain.floor ++ words.reverse) ++ [callee]).length =
        (chain.floor ++ words.reverse).length + 1 := List.length_append
    rwa [hposition] at hread
  · have hread := Stack.slice_eq _ _ _ harguments
    have hposition : ((chain.floor ++ words.reverse) ++ [callee, receiver]).length =
        (chain.floor ++ words.reverse).length + 2 := List.length_append
    rwa [hposition, arguments.length_reverse] at hread

/-- A native function is called. -/
theorem callNative (hmirrors : Mirrors limit activity chain calls) (hsound : calls.Sound registry known)
    {arguments words : List Word} {receiverWord calleeWord : Word} {identity : Nat} {name : String}
    {operation : Native} {receiver : Value} {values rest : List Value}
    (hsplit : chain.current.operands = arguments ++ receiverWord :: calleeWord :: words)
    (hcallee : calls.constants.value? calls.world.store.records calleeWord =
      some (.function (.native identity name operation)))
    (hreceiver : calls.constants.value? calls.world.store.records receiverWord = some receiver)
    (harguments : calls.constants.HoldsAll calls.world.store.records arguments.reverse values)
    (hwords : calls.constants.HoldsAll calls.world.store.records words rest)
    (hvalues : ∀ value ∈ values, value.Valid registry calls.world.store.records)
    {progress : Progress}
    (hcalled : calls.call (.function (.native identity name operation)) receiver values rest =
      some progress) :
    Corresponds limit chain
      ((do Execution.call arguments.length; return none : Execution (Option Value)) activity)
      progress := by
  have hview := hmirrors.view
  obtain ⟨htop, hcalleeCell, hreceiverCell, hslice⟩ := call_cells hview hsplit
  have hcalleeAt : activity.machine.stack.top - arguments.length - 2 =
      (chain.floor ++ words.reverse).length := by omega
  have hreceiverAt : activity.machine.stack.top - arguments.length - 1 =
      (chain.floor ++ words.reverse).length + 1 := by omega
  have hroom : ¬ activity.machine.stack.top < arguments.length + 2 := by omega
  have hfunction : Execution.functionOf
      (activity.machine.stack.cell (activity.machine.stack.top - arguments.length - 2)) activity =
        .ok (.native identity name operation) activity := by
    rw [hcalleeAt, hcalleeCell]
    exact hview.functionOf hcallee
  have hcall := Execution.call_of_native hroom hfunction
  rw [hreceiverAt, hreceiverCell, htop, hslice, Nat.add_sub_cancel,
    Execution.bind_of_ok (hview.decode hreceiver), Execution.bind_of_ok (hview.decodeAll harguments)]
    at hcall
  have happlied := hview.applyNative operation receiver values
  have hkept := hsound.world.applyNative operation (hsound.constants.valid_of_value? hreceiver) hvalues
  dsimp only [FrameChain.view] at happlied
  unfold CallStack.call at hcalled
  dsimp only at hcalled
  cases hresult : World.applyNative operation receiver values calls.world with
  | ok value world =>
    rw [hresult] at hcalled happlied hkept
    obtain rfl := Option.some.inj hcalled
    obtain ⟨first, hfirst, hfirstView⟩ := happlied
    obtain ⟨-, hstore, hvalue⟩ := hkept
    have hkeeps : Store.KeepsLayouts calls.world.store.records world.store.records := by
      rw [hstore]
      exact Store.KeepsLayouts.refl _
    obtain ⟨encoded, second, hencode, hsecond, hencoded⟩ := hfirstView.encode (hvalue.present.mono hkeeps)
    have hcutView : second.Realizes (chain.view world (calls.constants.carry value).2 limit
        ((arguments ++ [receiverWord, calleeWord]) ++ words)) := by
      rw [hsplit] at hsecond
      rw [List.append_assoc]
      exact hsecond
    obtain ⟨third, hcut, hthird⟩ := hcutView.cutOperands
    rw [Execution.bind_of_ok hfirst, Execution.bind_of_ok hencode, Execution.bind_of_ok hcut] at hcall
    rw [Execution.bind_of_eq hcall]
    exact hmirrors.pushes hthird (calls.constants.carry_extends value) hkeeps
      (ConstantTable.HoldsAll.mono (calls.constants.carry_extends value) hkeeps hwords) hencoded
  | error fault world =>
    rw [hresult] at hcalled happlied
    obtain rfl := Option.some.inj hcalled
    obtain ⟨first, hfirst, hfirstView⟩ := happlied
    rw [Execution.bind_of_error hfirst] at hcall
    exact ⟨first, Execution.bind_of_error hcall, Activity.Realizes.endsAt hfirstView⟩

/-- A compiled function is called. -/
theorem callCompiled (hmirrors : Mirrors limit activity chain calls) (hsound : calls.Sound registry known)
    (hresumable : chain.current.Resumable) {arguments words : List Word}
    {receiverWord calleeWord : Word} {routine : Routine} {receiver : Value} {values rest : List Value}
    (hsplit : chain.current.operands = arguments ++ receiverWord :: calleeWord :: words)
    (hcallee : calls.constants.value? calls.world.store.records calleeWord =
      some (.function (.compiled routine)))
    (hreceiver : calls.constants.value? calls.world.store.records receiverWord = some receiver)
    (harguments : calls.constants.HoldsAll calls.world.store.records arguments.reverse values)
    (hwords : calls.constants.HoldsAll calls.world.store.records words rest) {progress : Progress}
    (hcalled : calls.call (.function (.compiled routine)) receiver values rest = some progress) :
    Corresponds limit chain
      ((do Execution.call arguments.length; return none : Execution (Option Value)) activity)
      progress := by
  have hview := hmirrors.view
  obtain ⟨htop, hcalleeCell, -, -⟩ := call_cells hview hsplit
  have hcalleeAt : activity.machine.stack.top - arguments.length - 2 =
      (chain.floor ++ words.reverse).length := by omega
  have hroom : ¬ activity.machine.stack.top < arguments.length + 2 := by omega
  have hfunction : Execution.functionOf
      (activity.machine.stack.cell (activity.machine.stack.top - arguments.length - 2)) activity =
        .ok (.compiled routine) activity := by
    rw [hcalleeAt, hcalleeCell]
    exact hview.functionOf hcallee
  have hcall := Execution.call_of_compiled hroom hfunction
  have hlength : values.length = arguments.length := by
    rw [← harguments.length_eq, List.length_reverse]
  have hverified := hsound.code _ _ (hsound.constants.valid_of_value? hcallee)
  rw [hcalleeAt, hcalleeCell] at hcall
  unfold CallStack.call at hcalled
  dsimp only at hcalled
  rw [hlength] at hcalled
  split_ifs at hcalled with harity hslots
  · obtain rfl := Option.some.inj hcalled
    have hrefused : Execution.enter routine arguments.length ⟨UInt32.ofNat activity.offset⟩
        activity.frame.word activity =
          .error (.arityMismatch routine.name (routine.unit.parameterCount - 1) arguments.length)
            activity := by
      unfold Execution.enter
      exact if_pos harity
    rw [Execution.bind_of_error hrefused] at hcall
    exact ⟨activity, Execution.bind_of_error hcall, hview.endsAt⟩
  · obtain rfl := Option.some.inj hcalled
    have hcontents : (chain.view calls.world calls.constants limit chain.current.operands).contents =
        ((chain.floor ++ words.reverse) ++ [calleeWord]) ++ receiverWord :: arguments.reverse := by
      simp [FrameChain.view, hsplit]
    rcases hview.enter hcontents (by simp) (not_not.mp harity) hverified.parameters
      ⟨UInt32.ofNat activity.offset⟩ activity.frame.word with ⟨next, henter, hnext⟩ | ⟨hfull, hneeded⟩
    · rw [Execution.bind_of_ok henter] at hcall
      let later := chain.calling ⟨routine, calleeWord⟩ (receiverWord :: arguments.reverse) words
      have hlater : Activity.Realizes { next with frame := ⟨routine, calleeWord⟩, offset := 0 }
          (later.snapshot calls.world calls.constants limit) := by
        rw [FrameChain.snapshot_calling]
        rw [hview.offset, hview.frame] at hnext
        exact ⟨hnext.globals, hnext.sink, hnext.hosts, hnext.heap, hnext.constants, hnext.fits, hnext.contents,
          hnext.base, hnext.limit, rfl, rfl⟩
      refine Or.inl ⟨_, later, Execution.bind_of_ok hcall, ⟨hlater, ?_, ?_, ?_, hmirrors.hostBase_lt⟩,
        FrameChain.Moves.calls chain ⟨routine, calleeWord⟩ _ arguments words receiverWord hsplit⟩
      · refine Segment.holds_entered (ConstantTable.constant?_of_value? hcallee) hsound.constants.undefined
          hverified.parameters (List.Forall₂.cons hreceiver harguments) ?_
        rw [List.length_cons, hlength]
        exact not_not.mp harity
      · refine List.Forall₂.cons ?_ hmirrors.callers
        exact ⟨hmirrors.current.routine, hmirrors.current.word, hmirrors.current.offset,
          hmirrors.current.width, hmirrors.current.locals, hwords⟩
      · intro segment hsegment
        rcases List.mem_cons.mp hsegment with rfl | hold
        · exact hresumable
        · exact hmirrors.resumable segment hold
    · rw [Execution.bind_of_error hfull] at hcall
      refine Or.inr ⟨activity, Execution.bind_of_error hcall, hview.endsAt, ?_⟩
      have hcaller := hmirrors.words_withOperands calls.world calls.constants rest
      have hparameters := hverified.parameters
      have hlimit : (chain.view calls.world calls.constants limit chain.current.operands).limit = limit := rfl
      simp only [CallStack.words, List.map_cons, List.sum_cons] at hcaller
      simp only [CallStack.enter, CallStack.words, CallStack.initialLocals, List.map_cons, List.sum_cons]
      rw [Level.words]
      simp only [List.length_append, List.length_cons, List.length_nil, List.length_reverse,
        List.length_replicate, hlimit, hwords.length_eq, recordSize] at hneeded ⊢
      omega

/-- A function is called. -/
theorem call (hmirrors : Mirrors limit activity chain calls) (hsound : calls.Sound registry known)
    (hresumable : chain.current.Resumable) (argumentCount : UInt32) {receiver callee : Value}
    {rest : List Value}
    (hoperands : calls.current.operands.drop argumentCount.toNat = receiver :: callee :: rest)
    {progress : Progress}
    (hcalled : calls.call callee receiver (calls.current.operands.take argumentCount.toNat).reverse rest =
      some progress) :
    Corresponds limit chain (Execution.execute (.call argumentCount) activity) progress := by
  obtain ⟨arguments, receiverWord, calleeWord, words, hsplit, hcount, harguments, hreceiver, hcallee,
    hwords⟩ := hmirrors.exists_call hoperands
  have hvalues := List.rel_reverse harguments
  rw [Execution.execute, ← hcount]
  cases callee
  case function callable =>
    cases callable with
    | native identity name operation =>
      refine hmirrors.callNative hsound hsplit hcallee hreceiver hvalues hwords (fun value hvalue ↦ ?_) hcalled
      exact hsound.current.operands value (List.mem_of_mem_take (List.mem_reverse.mp hvalue))
    | compiled routine =>
      exact hmirrors.callCompiled hsound hresumable hsplit hcallee hreceiver hvalues hwords hcalled
  -- any other value cannot be called
  all_goals
    have hview := hmirrors.view
    obtain ⟨htop, hcalleeCell, -, -⟩ := call_cells hview hsplit
    have hcalleeAt : activity.machine.stack.top - arguments.length - 2 =
        (chain.floor ++ words.reverse).length := by omega
    have hroom : ¬ activity.machine.stack.top < arguments.length + 2 := by omega
    obtain rfl := Option.some.inj hcalled
    rw [← hcalleeCell, ← hcalleeAt] at hcallee
    have hrefused := Execution.call_of_error hroom (hview.functionOf hcallee)
    exact ⟨activity, Execution.bind_of_error hrefused, hview.endsAt⟩

/-! ### Returns -/

/-- Returning cuts the stack below the word of the running frame, and then looks at the record. -/
theorem leave_eq (hmirrors : Mirrors limit activity chain calls) {value : Value} {rest : List Value}
    (hoperands : calls.current.operands = value :: rest) :
    ∃ (word : Word) (words : List Word) (left : Activity),
      chain.current.operands = word :: words ∧
      calls.constants.value? calls.world.store.records word = some value ∧
      left.Realizes ⟨calls.world, calls.constants, limit, chain.lower,
        (UInt32.ofNat (FrameChain.baseOf chain.entry chain.hostBase chain.callers)).toNat,
        chain.current.frame, chain.current.offset⟩ ∧
      Execution.leave activity =
        if FrameChain.savedOffset chain.callers = hostReturn then
          (do return some (← Execution.decode word) : Execution (Option Value)) left
        else
          (do
            match ← Execution.functionOf (FrameChain.savedWord chain.current chain.callers) with
            | .native _ _ _ => throw (.typeMismatch "compiled function" "native function")
            | .compiled routine =>
              modify fun left ↦
                { left with
                  frame := ⟨routine, FrameChain.savedWord chain.current chain.callers⟩
                  offset := (FrameChain.savedOffset chain.callers).bits.toNat }
              Execution.push word
              return none : Execution (Option Value)) left := by
  obtain ⟨word, words, hsplit, hword, -, popped, hpop, hview⟩ := hmirrors.exists_operands hoperands
  have hrecord : chain.base + chain.current.frame.routine.unit.slotCount =
      (chain.lower ++ chain.current.frame.word :: chain.current.locals).length := by
    rw [FrameChain.base_eq, ← hmirrors.current.width, List.length_append, List.length_cons]
    omega
  have hcontents : popped.machine.stack.contents =
      (chain.lower ++ chain.current.frame.word :: chain.current.locals) ++
        (chain.record ++ words.reverse) := by
    rw [hview.contents]
    simp [FrameChain.view, FrameChain.floor]
  have hcell : ∀ {index : Nat} {saved : Word}, chain.record[index]? = some saved →
      popped.machine.stack.cell (chain.base + chain.current.frame.routine.unit.slotCount + index) =
        saved := by
    intro index saved hsaved
    refine Stack.cell_of_getElem? ?_
    rw [hcontents, hrecord, List.getElem?_append_right (Nat.le_add_right _ _), Nat.add_sub_cancel_left,
      List.getElem?_append_left (List.getElem?_eq_some_iff.mp hsaved).1]
    exact hsaved
  let left : Activity := popped.mapStack fun stack ↦
    { stack with
      top := stack.base - 1
      base := (UInt32.ofNat (FrameChain.baseOf chain.entry chain.hostBase chain.callers)).toNat }
  have htop : popped.machine.stack.base - 1 = chain.lower.length := by
    rw [hview.base]
    exact Nat.add_sub_cancel _ _
  have hbelow : chain.lower.length ≤ popped.machine.stack.top := by
    rw [← hview.fits.length_contents, hcontents]
    simp only [List.length_append]
    omega
  have hleft : left.Realizes ⟨calls.world, calls.constants, limit, chain.lower,
      (UInt32.ofNat (FrameChain.baseOf chain.entry chain.hostBase chain.callers)).toNat,
      chain.current.frame, chain.current.offset⟩ := by
    refine hview.mapStack (hview.fits.cut _ (htop ▸ hbelow)) ?_ rfl rfl
    rw [Stack.contents_cut _ _ (htop ▸ hbelow), htop, hcontents, List.append_assoc, List.take_left]
  refine ⟨word, words, left, hsplit, hword, hleft, ?_⟩
  have hget : (get : Execution Activity) popped = .ok popped popped := rfl
  have hbase : popped.machine.stack.base = chain.base := hview.base
  have hframe : popped.frame = chain.current.frame := hview.frame
  have hbaseCell : popped.machine.stack.cell (chain.base + chain.current.frame.routine.unit.slotCount) =
      ⟨UInt32.ofNat (FrameChain.baseOf chain.entry chain.hostBase chain.callers)⟩ := @hcell 0 _ rfl
  have hoffsetCell :
      popped.machine.stack.cell (chain.base + chain.current.frame.routine.unit.slotCount + 1) =
        FrameChain.savedOffset chain.callers := @hcell 1 _ rfl
  have hwordCell :
      popped.machine.stack.cell (chain.base + chain.current.frame.routine.unit.slotCount + 2) =
        FrameChain.savedWord chain.current chain.callers := @hcell 2 _ rfl
  rw [Execution.leave, Execution.bind_of_ok hpop, Execution.bind_of_ok hget]
  rw [hbase, hframe, hbaseCell, hoffsetCell, hwordCell]
  split_ifs with hhost
  · rfl
  · rfl

/-- A function returns. -/
theorem leave (hmirrors : Mirrors limit activity chain calls)
    (hroom : chain.contents.length ≤ 4294967296) {value : Value} {rest : List Value}
    (hoperands : calls.current.operands = value :: rest) :
    Corresponds limit chain (Execution.execute .ret activity) (calls.leave value) := by
  obtain ⟨word, words, left, hsplit, hword, hleft, hleave⟩ := hmirrors.leave_eq hoperands
  have hlower : chain.lower.length < 4294967296 := by
    rw [FrameChain.contents_eq, FrameChain.floor] at hroom
    simp only [List.length_append, List.length_cons] at hroom
    omega
  have hhost := hmirrors.hostBase_lt
  have hcallers := hmirrors.callers
  have hresumable := hmirrors.resumable
  obtain ⟨entry, hostBase, current, callers⟩ := chain
  rw [Execution.execute, hleave]
  unfold CallStack.leave
  cases callers with
  | nil =>
    rw [List.forall₂_nil_left_iff.mp hcallers]
    have hsaved : FrameChain.savedOffset [] = hostReturn := rfl
    have hbase : (UInt32.ofNat (FrameChain.baseOf entry hostBase [])).toNat = hostBase :=
      UInt32.toNat_ofNat_of_lt' hhost
    dsimp only at hleft
    rw [hbase] at hleft
    rw [if_pos hsaved, Execution.bind_of_ok (hleft.decode hword)]
    exact ⟨left, current.frame, current.offset, rfl, rfl, hleft⟩
  | cons caller callers =>
    obtain ⟨level, levels, hcaller, hrest, hsame⟩ := List.forall₂_cons_left_iff.mp hcallers
    rw [hsame]
    obtain ⟨hoffset, hnotHost⟩ := (hresumable caller List.mem_cons_self).offset_word
    have hbase : (UInt32.ofNat (FrameChain.baseOf entry hostBase (caller :: callers))).toNat =
        FrameChain.baseOf entry hostBase (caller :: callers) :=
      UInt32.toNat_ofNat_of_lt'
        (Nat.lt_trans (FrameChain.baseOf_lt_length_stacked entry hostBase caller callers) hlower)
    have hfunction : Execution.functionOf (FrameChain.savedWord current (caller :: callers)) left =
        .ok (.compiled caller.frame.routine) left :=
      hleft.functionOf (ConstantTable.value?_of_constant? hcaller.word)
    rw [if_neg (show ¬ FrameChain.savedOffset (caller :: callers) = hostReturn from hnotHost),
      Execution.bind_of_ok hfunction]
    dsimp only
    have hmodified : (modify fun left : Activity ↦
        { left with
          frame := ⟨caller.frame.routine, FrameChain.savedWord current (caller :: callers)⟩
          offset := (FrameChain.savedOffset (caller :: callers)).bits.toNat } : Execution Unit) left =
        .ok () { left with
          frame := ⟨caller.frame.routine, FrameChain.savedWord current (caller :: callers)⟩
          offset := (FrameChain.savedOffset (caller :: callers)).bits.toNat } := rfl
    rw [Execution.bind_of_ok hmodified]
    -- the machine is now the one of the chain without the frame that was running
    have hcallerView : Activity.Realizes { left with
          frame := ⟨caller.frame.routine, FrameChain.savedWord current (caller :: callers)⟩
          offset := (FrameChain.savedOffset (caller :: callers)).bits.toNat }
        (FrameChain.view ⟨entry, hostBase, caller, callers⟩ calls.world calls.constants limit
          caller.operands) :=
      ⟨hleft.globals, hleft.sink, hleft.hosts, hleft.heap, hleft.constants, hleft.fits, hleft.contents,
        hleft.base.trans hbase, hleft.limit, rfl, hoffset⟩
    rcases hcallerView.pushOperand word with ⟨next, hpush, hnext⟩ | ⟨hfull, hneeded⟩
    · rw [Execution.bind_of_ok hpush]
      refine Or.inl ⟨next, ⟨entry, hostBase, { caller with operands := word :: caller.operands }, callers⟩,
        rfl, ⟨hnext, ?_, hrest, ?_, hhost⟩, ?_⟩
      · exact ⟨hcaller.routine, hcaller.word, hcaller.offset, hcaller.width, hcaller.locals,
          List.Forall₂.cons hword hcaller.operands⟩
      · exact fun segment hsegment ↦ hresumable segment (List.mem_cons_of_mem _ hsegment)
      · exact FrameChain.Moves.returns entry hostBase current caller callers word words hsplit
    · rw [Execution.bind_of_error hfull]
      refine Or.inr ⟨_, rfl, ⟨_, [], hcallerView, rfl, rfl, rfl, (List.append_nil _).symm⟩, ?_⟩
      have hbelow := FrameChain.length_stacked entry hostBase (List.Forall₂.cons hcaller hrest)
      rw [FrameChain.stacked] at hbelow
      simp only [CallStack.words, Level.words, FrameChain.floor, FrameChain.lower, FrameChain.record,
        List.map_cons, List.sum_cons, List.length_append, List.length_cons, List.length_nil,
        List.length_reverse] at hbelow hneeded ⊢
      omega

/-! ### Instructions and steps -/

/-- An instruction of the machine does to words what its operation does to values. -/
theorem execute (hmirrors : Mirrors limit activity chain calls) (hsound : calls.Sound registry known)
    (hroom : chain.contents.length ≤ 4294967296) (hresumable : chain.current.Resumable)
    {instruction : Instruction} {operation : Operation}
    (hresolved : instruction.operation? calls.constants = some operation) {progress : Progress}
    (hperformed : calls.perform operation = some progress) :
    Corresponds limit chain (Execution.execute instruction activity) progress := by
  unfold CallStack.perform at hperformed
  cases instruction <;> simp only [Instruction.operation?, Option.map_eq_some_iff] at hresolved
  case constant word =>
    obtain ⟨value, hvalue, rfl⟩ := hresolved
    obtain rfl := Option.some.inj hperformed
    exact hmirrors.constant hvalue
  case lookup word =>
    obtain ⟨name, hname, rfl⟩ := hresolved
    obtain rfl := Option.some.inj hperformed
    exact hmirrors.lookup hsound hname
  case register word =>
    obtain ⟨name, hname, rfl⟩ := hresolved
    rcases hstack : calls.current.operands with _ | ⟨value, rest⟩ <;> rw [hstack] at hperformed
    · cases hperformed
    · obtain rfl := Option.some.inj hperformed
      exact hmirrors.register hname hstack
  case load slot =>
    obtain rfl := Option.some.inj hresolved
    obtain ⟨value, hvalue, rfl⟩ := Option.map_eq_some_iff.mp hperformed
    exact hmirrors.load hvalue
  case store slot =>
    obtain rfl := Option.some.inj hresolved
    rcases hstack : calls.current.operands with _ | ⟨value, rest⟩ <;> rw [hstack] at hperformed
    · cases hperformed
    · dsimp only at hperformed
      split_ifs at hperformed with hslot
      obtain rfl := Option.some.inj hperformed
      exact hmirrors.store hstack hslot
  case duplicate =>
    obtain rfl := Option.some.inj hresolved
    rcases hstack : calls.current.operands with _ | ⟨value, rest⟩ <;> rw [hstack] at hperformed
    · cases hperformed
    · obtain rfl := Option.some.inj hperformed
      exact hmirrors.duplicate hstack
  case pop =>
    obtain rfl := Option.some.inj hresolved
    rcases hstack : calls.current.operands with _ | ⟨value, rest⟩ <;> rw [hstack] at hperformed
    · cases hperformed
    · obtain rfl := Option.some.inj hperformed
      exact hmirrors.pop hstack
  case swap =>
    obtain rfl := Option.some.inj hresolved
    rcases hstack : calls.current.operands with _ | ⟨upper, _ | ⟨lower, rest⟩⟩ <;>
      rw [hstack] at hperformed
    · cases hperformed
    · cases hperformed
    · obtain rfl := Option.some.inj hperformed
      exact hmirrors.swap hstack
  case call argumentCount =>
    obtain rfl := Option.some.inj hresolved
    dsimp only at hperformed
    split at hperformed
    case h_1 receiver callee rest hstack =>
      exact hmirrors.call hsound hresumable argumentCount hstack hperformed
    case h_2 => cases hperformed
  case ret =>
    obtain rfl := Option.some.inj hresolved
    rcases hstack : calls.current.operands with _ | ⟨value, rest⟩ <;> rw [hstack] at hperformed
    · cases hperformed
    · obtain rfl := Option.some.inj hperformed
      exact hmirrors.leave hroom hstack
  case goto target =>
    obtain rfl := Option.some.inj hresolved
    obtain rfl := Option.some.inj hperformed
    exact hmirrors.goto target
  case jumpIfFalse target =>
    obtain rfl := Option.some.inj hresolved
    rcases hstack : calls.current.operands with _ | ⟨value, rest⟩ <;> rw [hstack] at hperformed
    · cases hperformed
    · obtain rfl := Option.some.inj hperformed
      exact hmirrors.jumpIfFalse target hstack hsound.constants.inline
  case new word =>
    obtain ⟨layout, hlayout, rfl⟩ := hresolved
    dsimp only at hperformed
    split_ifs at hperformed with hcount
    obtain rfl := Option.some.inj hperformed
    exact hmirrors.new hlayout hcount
  case get word =>
    obtain ⟨name, hname, rfl⟩ := hresolved
    rcases hstack : calls.current.operands with _ | ⟨receiver, rest⟩ <;> rw [hstack] at hperformed
    · cases hperformed
    · obtain rfl := Option.some.inj hperformed
      exact hmirrors.readField hsound hname hstack
  case put word =>
    obtain ⟨name, hname, rfl⟩ := hresolved
    rcases hstack : calls.current.operands with _ | ⟨value, _ | ⟨receiver, rest⟩⟩ <;>
      rw [hstack] at hperformed
    · cases hperformed
    · cases hperformed
    · have hput := hmirrors.writeField hsound hname hstack
      dsimp only at hperformed
      split at hperformed
      case h_1 world hwritten =>
        rw [hwritten] at hput
        obtain rfl := Option.some.inj hperformed
        exact hput
      case h_2 fault hrefused =>
        rw [hrefused] at hput
        obtain rfl := Option.some.inj hperformed
        exact hput

/-- A step of the machine reads an instruction, and then does to words what the next operation of the calls
does to values. -/
theorem step (hmirrors : Mirrors limit activity chain calls) (hvalid : calls.Valid registry known)
    (hroom : chain.contents.length ≤ 4294967296) :
    ∃ (instruction : Instruction) (progress : Progress),
      chain.current.frame.routine.unit.instructionAt chain.current.offset = .ok instruction ∧
      calls.step = some progress ∧ progress.Valid registry known ∧
      Corresponds limit (chain.withOffset (chain.current.offset + instruction.size))
        (Execution.step activity) progress := by
  obtain ⟨progress, hprogress, houtcome⟩ := hvalid.step
  unfold CallStack.step at hprogress
  split at hprogress
  case h_1 => cases hprogress
  case h_2 operation next hoperation =>
    obtain ⟨instruction, hinstruction, hresolved, rfl⟩ :=
      CodeUnit.exists_instruction_of_operationAt hoperation
    rw [← hmirrors.current.routine, ← hmirrors.current.offset] at hinstruction
    have hread : activity.frame.routine.unit.instructionAt activity.offset = .ok instruction := by
      rw [hmirrors.realizes.frame, hmirrors.realizes.offset]
      exact hinstruction
    have hoffset : activity.offset = chain.current.offset := hmirrors.realizes.offset
    have hmoved : Mirrors limit { activity with offset := chain.current.offset + instruction.size }
        (chain.withOffset (chain.current.offset + instruction.size))
        (calls.withOffset (calls.current.offset + instruction.size)) := by
      refine ⟨hmirrors.view.withOffset _, ?_, hmirrors.callers, hmirrors.resumable, hmirrors.hostBase_lt⟩
      exact ⟨hmirrors.current.routine, hmirrors.current.word, by
        simp only [FrameChain.withOffset, CallStack.withOffset, hmirrors.current.offset],
        hmirrors.current.width, hmirrors.current.locals, hmirrors.current.operands⟩
    have hsound : (calls.withOffset (calls.current.offset + instruction.size)).Sound registry known :=
      ⟨hvalid.world, hvalid.constants, hvalid.code, ⟨hvalid.current.routine, hvalid.current.width,
        hvalid.current.locals, hvalid.current.operands⟩, hvalid.callers, hvalid.resumes⟩
    have hresumable : (chain.withOffset (chain.current.offset + instruction.size)).current.Resumable := by
      have hinside := CodeUnit.add_size_le_of_instructionAt hinstruction
      have hverified := hvalid.code _ _ hvalid.current.routine
      rw [hmirrors.current.routine] at hinside
      exact Nat.lt_of_le_of_lt hinside hverified.size
    refine ⟨instruction, progress, hinstruction, ?_, houtcome, ?_⟩
    · unfold CallStack.step
      rw [hoperation]
      exact hprogress
    · rw [Execution.step_of_instructionAt hread, hoffset]
      exact hmoved.execute hsound hroom hresumable hresolved hprogress

end Mirrors

end ScriptMachine
