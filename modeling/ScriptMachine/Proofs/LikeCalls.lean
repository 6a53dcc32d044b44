import ScriptMachine.Proofs.LikeWorlds
import ScriptMachine.Proofs.Runs

/-!
# Calls that look alike

Calls in progress of two runs are alike when their worlds, variables and operands are, and when the code that
each of them has left is (`CodeUnit.Matches`): the same operations up to values and classes that stand for each
other. The two runs may have different constants, as long as words can number them; they may also share one
table of any size, when values are alike only if they are equal (`Likeness.Carries`).

`CallStack.Like.step` is that alike calls go on alike: their next operations lead to alike calls, to alike
results or to the same fault, unless the first run fails for a limit that the second one has larger.
-/

set_option autoImplicit false
set_option relaxedAutoImplicit false

namespace ScriptMachine

/-! ### Alike code -/

/-- An operation that holds neither a value nor a class. -/
def Operation.IsPlain : Operation → Prop
  | .push _ | .new _ => False
  | _ => True

/-- Two operations are the same up to values and classes that stand for each other. -/
inductive Operation.Like (likeness : Likeness) : Operation → Operation → Prop where
  | push {value value' : Value} (hvalue : value.Like likeness value') : Like likeness (.push value) (.push value')
  | new {layout layout' : Class} (hlayout : likeness.layouts layout layout') :
      Like likeness (.new layout) (.new layout')
  | plain {operation : Operation} (hplain : operation.IsPlain) : Like likeness operation operation

/-- From an offset on, two code units consist of alike operations with the same lines and mnemonics. -/
inductive CodeUnit.Matches (likeness : Likeness) (unit unit' : CodeUnit) (table table' : ConstantTable) :
    (offset : Nat) → Prop where
  | step {offset next : Nat} {operation operation' : Operation}
      (hoperation : unit.operationAt table offset = some (operation, next))
      (hoperation' : unit'.operationAt table' offset = some (operation', next))
      (hlike : operation.Like likeness operation')
      (hline : unit.lineAt offset = unit'.lineAt offset)
      (hmnemonic : unit.mnemonicAt offset = unit'.mnemonicAt offset)
      (hlater : ∀ target ∈ operation.successors next, Matches likeness unit unit' table table' target) :
      Matches likeness unit unit' table table' offset

/-- More constants leave alike code alike. -/
theorem CodeUnit.Matches.mono {likeness : Likeness} {unit unit' : CodeUnit}
    {table table' larger larger' : ConstantTable} (hextends : table.Extends larger)
    (hextends' : table'.Extends larger') {offset : Nat}
    (hmatches : unit.Matches likeness unit' table table' offset) :
    unit.Matches likeness unit' larger larger' offset := by
  induction hmatches with
  | step hoperation hoperation' hlike hline hmnemonic _ ih =>
    exact .step (CodeUnit.operationAt_mono hextends hoperation)
      (CodeUnit.operationAt_mono hextends' hoperation') hlike hline hmnemonic ih

/-- Two compiled functions take as many parameters and slots, and have the same name and alike code. -/
structure Routine.Matches (likeness : Likeness) (table table' : ConstantTable) (routine routine' : Routine) :
    Prop where
  name : routine.name = routine'.name
  parameters : routine.unit.parameterCount = routine'.unit.parameterCount
  slots : routine.unit.slotCount = routine'.unit.slotCount
  code : routine.unit.Matches likeness routine'.unit table table' 0

/-- Functions that stand for each other do the same. -/
structure Likeness.Sound (likeness : Likeness) (table table' : ConstantTable) : Prop
    extends likeness.Faithful where
  native : ∀ {identity : Nat} {name : String} {operation : Native} {function : Function},
    likeness.functions (.native identity name operation) function →
      ∃ (identity' : Nat) (name' : String), function = .native identity' name' operation
  compiled : ∀ {routine : Routine} {function : Function}, likeness.functions (.compiled routine) function →
    ∃ routine' : Routine, function = .compiled routine' ∧ routine.Matches likeness table table' routine'

/-- More constants leave functions that do the same as they are. -/
theorem Likeness.Sound.mono {likeness : Likeness} {table table' larger larger' : ConstantTable}
    (hextends : table.Extends larger) (hextends' : table'.Extends larger')
    (hsound : likeness.Sound table table') : likeness.Sound larger larger' :=
  ⟨hsound.toFaithful, hsound.native, fun hfunctions ↦ by
    obtain ⟨routine', hsame, hmatches⟩ := hsound.compiled hfunctions
    exact ⟨routine', hsame, hmatches.name, hmatches.parameters, hmatches.slots,
      hmatches.code.mono hextends hextends'⟩⟩

/-! ### Values that come back through words -/

/-- Values that are alike are equal, and every valid value that is no object is like itself. -/
structure Likeness.Exact (likeness : Likeness) (registry : Registry) : Prop where
  eq : ∀ {value value' : Value}, value.Like likeness value' → value = value'
  like : ∀ {value : Value}, value.Valid registry [] → value.Like likeness value

/-- Two runs carry alike values to alike ones: they share one table and tell all values apart, or words can
number the constants of both. -/
structure Likeness.Carries (likeness : Likeness) (shared : Prop) (registry : Registry)
    (final final' : ConstantTable) : Prop where
  exact : shared → likeness.Exact registry
  small : ¬ shared → final.size ≤ Word.indexLimit ∧ final'.size ≤ Word.indexLimit

/-- Fewer constants can be numbered as well. -/
theorem Likeness.Carries.of_extends {likeness : Likeness} {shared : Prop} {registry : Registry}
    {final final' table table' : ConstantTable} (hextends : table.Extends final)
    (hextends' : table'.Extends final') (hcarries : likeness.Carries shared registry final final') :
    likeness.Carries shared registry table table' :=
  ⟨hcarries.exact, fun hnot ↦ ⟨Nat.le_trans hextends.size_le (hcarries.small hnot).1,
    Nat.le_trans hextends'.size_le (hcarries.small hnot).2⟩⟩

/-- Alike values come back through words as alike values. -/
theorem Value.Like.carry {likeness : Likeness} {shared : Prop} {registry registry' : Registry}
    {table table' : ConstantTable} (hshared : shared → table = table') (hvalid : table.Valid registry)
    (hvalid' : table'.Valid registry') {value value' : Value} (hlike : value.Like likeness value')
    {records records' : List Record} (hvalue : value.Valid registry records)
    (hvalue' : value'.Valid registry' records')
    (hcarries : likeness.Carries shared registry (table.carry value).2 (table'.carry value').2) :
    (table.carry value).1.Like likeness (table'.carry value').1 ∧
      (shared → (table.carry value).2 = (table'.carry value').2) := by
  by_cases hone : shared
  · have hexact := hcarries.exact hone
    obtain rfl := hexact.eq hlike
    obtain rfl := hshared hone
    refine ⟨?_, fun _ ↦ rfl⟩
    cases hinline : value.inlineWord? with
    | some word =>
      rw [ConstantTable.carry, hinline]
      exact hlike
    | none => exact hexact.like (hvalid.carry (hvalue.of_inlineWord? hinline)).2
  · obtain ⟨hsize, hsize'⟩ := hcarries.small hone
    rw [hvalid.carry_eq hvalue hsize, hvalid'.carry_eq hvalue' hsize']
    exact ⟨hlike, fun hshare ↦ absurd hshare hone⟩

/-- Rows of undefined are alike. -/
theorem Value.Like.replicate_undefined {likeness : Likeness} (count : Nat) :
    List.Forall₂ (Value.Like likeness) (List.replicate count .undefined) (List.replicate count .undefined) :=
  List.forall₂_same.mpr fun value hvalue ↦ by
    rw [(List.mem_replicate.mp hvalue).2]
    exact .undefined

/-! ### Alike calls -/

/-- Two calls have alike variables and operands, and alike code left. -/
structure Level.Like (likeness : Likeness) (table table' : ConstantTable) (level level' : Level) : Prop where
  name : level.routine.name = level'.routine.name
  offset : level.offset = level'.offset
  locals : List.Forall₂ (Value.Like likeness) level.locals level'.locals
  operands : List.Forall₂ (Value.Like likeness) level.operands level'.operands
  code : level.routine.unit.Matches likeness level'.routine.unit table table' level.offset

theorem Level.Like.mono {likeness : Likeness} {table table' larger larger' : ConstantTable}
    (hextends : table.Extends larger) (hextends' : table'.Extends larger') {level level' : Level}
    (hlike : level.Like likeness table table' level') : level.Like likeness larger larger' level' :=
  ⟨hlike.name, hlike.offset, hlike.locals, hlike.operands, hlike.code.mono hextends hextends'⟩

/-- Alike calls need as many words. -/
theorem Level.Like.words_eq {likeness : Likeness} {table table' : ConstantTable} {level level' : Level}
    (hlike : level.Like likeness table table' level') : level.words = level'.words := by
  rw [Level.words, Level.words, hlike.locals.length_eq, hlike.operands.length_eq]

namespace CallStack

/-- Calls in progress of two runs are alike but for the code that the innermost one has left. -/
structure Alike (likeness : Likeness) (slack : Slack) (shared : Prop) (calls calls' : CallStack) : Prop where
  world : calls.world.Like likeness slack calls'.world
  shared : shared → calls.constants = calls'.constants
  program : likeness.Sound calls.constants calls'.constants
  name : calls.current.routine.name = calls'.current.routine.name
  offset : calls.current.offset = calls'.current.offset
  locals : List.Forall₂ (Value.Like likeness) calls.current.locals calls'.current.locals
  operands : List.Forall₂ (Value.Like likeness) calls.current.operands calls'.current.operands
  callers : List.Forall₂ (Level.Like likeness calls.constants calls'.constants) calls.callers calls'.callers

/-- The innermost calls have alike code from an offset on. -/
def MatchesAt (likeness : Likeness) (calls calls' : CallStack) (offset : Nat) : Prop :=
  calls.current.routine.unit.Matches likeness calls'.current.routine.unit calls.constants calls'.constants offset

/-- Calls in progress of two runs are alike. -/
structure Like (likeness : Likeness) (slack : Slack) (shared : Prop) (calls calls' : CallStack) : Prop
    extends calls.Alike likeness slack shared calls' where
  code : MatchesAt likeness calls calls' calls.current.offset

end CallStack

/-- The world after an operation. -/
def Progress.world : Progress → World
  | .next calls => calls.world
  | .finished _ world _ => world
  | .failed _ world _ => world

namespace CallStack

/-- A call changes the world as a native function does, or not at all. -/
theorem call_changes {calls : CallStack} {callee receiver : Value} {arguments rest : List Value}
    {progress : Progress} (hcalled : calls.call callee receiver arguments rest = some progress)
    (bound : Option String) : calls.world.Changes bound progress.world := by
  unfold call at hcalled
  split at hcalled
  case h_1 operation =>
    have hchanges := @World.Changes.native calls.world bound operation receiver arguments
    split at hcalled
    case h_1 hresult | h_2 hresult =>
      obtain rfl := Option.some.inj hcalled
      rw [hresult] at hchanges
      exact hchanges
  case h_2 =>
    split_ifs at hcalled
    all_goals
      obtain rfl := Option.some.inj hcalled
      exact .none _
  case h_3 =>
    obtain rfl := Option.some.inj hcalled
    exact .none _

/-- An operation changes the world in one of a few ways. -/
theorem perform_changes {calls : CallStack} {operation : Operation} {progress : Progress}
    (hperformed : calls.perform operation = some progress) :
    calls.world.Changes operation.bound? progress.world := by
  unfold perform at hperformed
  split at hperformed
  case h_3 =>
    obtain rfl := Option.some.inj hperformed
    exact .register _ _
  case h_4 =>
    obtain ⟨value, -, rfl⟩ := Option.map_eq_some_iff.mp hperformed
    exact .none _
  case h_5 =>
    split_ifs at hperformed
    obtain rfl := Option.some.inj hperformed
    exact .none _
  case h_9 =>
    split at hperformed
    case h_1 => exact call_changes hperformed _
    case h_2 => cases hperformed
  case h_10 =>
    obtain rfl := Option.some.inj hperformed
    unfold leave
    split <;> exact .none _
  case h_12 =>
    obtain rfl := Option.some.inj hperformed
    simp only [Progress.world]
    split <;> exact .none _
  case h_13 =>
    split_ifs at hperformed
    obtain rfl := Option.some.inj hperformed
    cases hmade : calls.world.allocate _ _ with
    | ok found => exact .allocate _ hmade
    | error fault => exact .none _
  case h_14 =>
    obtain rfl := Option.some.inj hperformed
    generalize calls.world.readField _ _ = outcome
    cases outcome <;> exact .none _
  case h_15 =>
    split at hperformed
    case h_1 hwritten =>
      obtain rfl := Option.some.inj hperformed
      exact .write _ hwritten
    case h_2 =>
      obtain rfl := Option.some.inj hperformed
      exact .none _
  case h_16 => cases hperformed
  all_goals
    obtain rfl := Option.some.inj hperformed
    exact .none _

/-- A step changes the world in one of a few ways. -/
theorem step_changes {calls : CallStack} {progress : Progress} (hstep : calls.step = some progress) :
    ∃ (operation : Operation) (next : Nat),
      calls.current.routine.unit.operationAt calls.constants calls.current.offset = some (operation, next) ∧
        calls.world.Changes operation.bound? progress.world := by
  unfold step at hstep
  split at hstep
  case h_1 => cases hstep
  case h_2 operation next hoperation =>
    have hchanges := perform_changes hstep
    exact ⟨operation, next, hoperation, hchanges⟩

end CallStack

/-- What comes of an operation in two runs: alike calls, alike results, the same fault, or a fault in the first
run that is excused. -/
inductive Progress.Like (likeness : Likeness) (slack : Slack) (shared : Prop) : Progress → Progress → Prop where
  | next {calls calls' : CallStack} (hcalls : calls.Like likeness slack shared calls') :
      Like likeness slack shared (.next calls) (.next calls')
  | finished {value value' : Value} {world world' : World} {constants constants' : ConstantTable}
      (hvalue : value.Like likeness value') (hworld : world.Like likeness slack world')
      (hshared : shared → constants = constants') :
      Like likeness slack shared (.finished value world constants) (.finished value' world' constants')
  | failed (fault : Fault) {world world' : World} {constants constants' : ConstantTable}
      (hworld : world.Like likeness slack world') (hshared : shared → constants = constants') :
      Like likeness slack shared (.failed fault world constants) (.failed fault world' constants')
  | cut {fault : Fault} {world : World} {constants : ConstantTable} {progress' : Progress}
      (hexcused : slack.Excuses fault) (hprecedes : world.sink.Precedes progress'.world.sink) :
      Like likeness slack shared (.failed fault world constants) progress'

namespace CallStack.Alike

variable {likeness : Likeness} {slack : Slack} {shared : Prop} {calls calls' : CallStack}
  {registry registry' : Registry} {known known' : List Value}

/-! ### Changes of the innermost call -/

/-- Calls are alike at a place from which they have alike code left. -/
theorem goesOn (halike : calls.Alike likeness slack shared calls') {operands operands' : List Value}
    (hoperands : List.Forall₂ (Value.Like likeness) operands operands')
    (hcode : MatchesAt likeness calls calls' calls.current.offset) :
    (calls.withOperands operands).Like likeness slack shared (calls'.withOperands operands') :=
  ⟨⟨halike.world, halike.shared, halike.program, halike.name, halike.offset, halike.locals, hoperands,
    halike.callers⟩, hcode⟩

/-- Calls stay alike in alike worlds. -/
theorem withWorld (halike : calls.Alike likeness slack shared calls') {world world' : World}
    (hworld : world.Like likeness slack world') :
    (calls.withWorld world).Alike likeness slack shared (calls'.withWorld world') :=
  ⟨hworld, halike.shared, halike.program, halike.name, halike.offset, halike.locals, halike.operands,
    halike.callers⟩

/-- Calls stay alike when alike values come back through words. -/
theorem pushCarried (halike : calls.Alike likeness slack shared calls')
    (hconstants : calls.constants.Valid registry) (hconstants' : calls'.constants.Valid registry')
    {value value' : Value} (hlike : value.Like likeness value')
    {records records' : List Record} (hvalue : value.Valid registry records)
    (hvalue' : value'.Valid registry' records') {operands operands' : List Value}
    (hoperands : List.Forall₂ (Value.Like likeness) operands operands')
    (hcode : MatchesAt likeness calls calls' calls.current.offset)
    (hcarries : likeness.Carries shared registry (calls.constants.carry value).2
      (calls'.constants.carry value').2) :
    (calls.pushCarried value operands).Like likeness slack shared (calls'.pushCarried value' operands') := by
  have hextends := calls.constants.carry_extends value
  have hextends' := calls'.constants.carry_extends value'
  obtain ⟨hcarried, hshared⟩ :=
    hlike.carry halike.shared hconstants hconstants' hvalue hvalue' hcarries
  exact ⟨⟨halike.world, hshared, halike.program.mono hextends hextends', halike.name, halike.offset,
    halike.locals, .cons hcarried hoperands,
    halike.callers.imp fun _ _ hlevel ↦ hlevel.mono hextends hextends'⟩, hcode.mono hextends hextends'⟩

/-! ### Calls and returns -/

/-- Calling alike values has alike outcomes. -/
theorem call (halike : calls.Alike likeness slack shared calls') (hsound : calls.Sound registry known)
    (hsound' : calls'.Sound registry' known') {callee callee' receiver receiver' : Value}
    (hcallee : callee.Like likeness callee') (hreceiver : receiver.Like likeness receiver')
    {arguments arguments' rest rest' : List Value}
    (harguments : List.Forall₂ (Value.Like likeness) arguments arguments')
    (hrest : List.Forall₂ (Value.Like likeness) rest rest')
    (hvalues : ∀ value ∈ receiver :: arguments, value.Valid registry calls.world.store.records)
    (hvalues' : ∀ value ∈ receiver' :: arguments', value.Valid registry' calls'.world.store.records)
    (hcode : MatchesAt likeness calls calls' calls.current.offset) {progress progress' : Progress}
    (hcalled : calls.call callee receiver arguments rest = some progress)
    (hcalled' : calls'.call callee' receiver' arguments' rest' = some progress')
    (hcarries : likeness.Carries shared registry progress.constants progress'.constants) :
    progress.Like likeness slack shared progress' := by
  unfold CallStack.call at hcalled hcalled'
  cases hcallee
  case function function function' hfunctions =>
    cases function with
    | native identity name operation =>
      obtain ⟨identity', name', rfl⟩ := halike.program.native hfunctions
      dsimp only at hcalled hcalled'
      have happlied := halike.world.applyNative halike.program.toFaithful operation hreceiver harguments
      have hvalid := hsound.world.applyNative operation (hvalues _ List.mem_cons_self)
        fun value hvalue ↦ hvalues value (List.mem_cons_of_mem _ hvalue)
      have hvalid' := hsound'.world.applyNative operation (hvalues' _ List.mem_cons_self)
        fun value hvalue ↦ hvalues' value (List.mem_cons_of_mem _ hvalue)
      generalize World.applyNative operation receiver arguments calls.world = result at *
      generalize World.applyNative operation receiver' arguments' calls'.world = result' at *
      cases happlied with
      | ok hworld hvalue =>
        obtain rfl := Option.some.inj hcalled
        obtain rfl := Option.some.inj hcalled'
        exact .next ((halike.withWorld hworld).pushCarried hsound.constants hsound'.constants hvalue
          hvalid.2.2 hvalid'.2.2 hrest hcode hcarries)
      | error fault hworld =>
        obtain rfl := Option.some.inj hcalled
        obtain rfl := Option.some.inj hcalled'
        exact .failed fault hworld halike.shared
      | cut hexcused hprecedes =>
        obtain rfl := Option.some.inj hcalled
        cases result' <;>
          · obtain rfl := Option.some.inj hcalled'
            exact .cut hexcused hprecedes
    | compiled routine =>
      obtain ⟨routine', rfl, hmatches⟩ := halike.program.compiled hfunctions
      have hcount := harguments.length_eq
      dsimp only at hcalled hcalled'
      rw [← hcount, ← hmatches.name, ← hmatches.parameters, ← hmatches.slots] at hcalled'
      split_ifs at hcalled hcalled'
      · obtain rfl := Option.some.inj hcalled
        obtain rfl := Option.some.inj hcalled'
        exact .failed _ halike.world halike.shared
      · obtain rfl := Option.some.inj hcalled
        obtain rfl := Option.some.inj hcalled'
        refine .next ⟨⟨halike.world, halike.shared, halike.program, hmatches.name, rfl, ?_, .nil,
          .cons ⟨halike.name, halike.offset, halike.locals, hrest, hcode⟩ halike.callers⟩, hmatches.code⟩
        simp only [CallStack.enter, initialLocals, ← hmatches.parameters, ← hmatches.slots]
        exact .cons hreceiver (List.rel_append harguments (Value.Like.replicate_undefined _))
  all_goals
    obtain rfl := Option.some.inj hcalled
    obtain rfl := Option.some.inj hcalled'
    exact .failed _ halike.world halike.shared

/-- Returning alike values has alike outcomes. -/
theorem leave (halike : calls.Alike likeness slack shared calls') {value value' : Value}
    (hvalue : value.Like likeness value') :
    (calls.leave value).Like likeness slack shared (calls'.leave value') := by
  have hcallers := halike.callers
  unfold CallStack.leave
  cases hlevels : calls.callers with
  | nil =>
    rw [hlevels] at hcallers
    rw [List.forall₂_nil_left_iff.mp hcallers]
    exact .finished hvalue halike.world halike.shared
  | cons caller callers =>
    rw [hlevels] at hcallers
    obtain ⟨caller', callers', hcaller, hrest, hsplit⟩ := List.forall₂_cons_left_iff.mp hcallers
    rw [hsplit]
    exact .next ⟨⟨halike.world, halike.shared, halike.program, hcaller.name, hcaller.offset, hcaller.locals,
      .cons hvalue hcaller.operands, hrest⟩, hcaller.code⟩

/-! ### Operations -/

/-- Alike operations have alike outcomes. -/
theorem perform (halike : calls.Alike likeness slack shared calls') (hsound : calls.Sound registry known)
    (hsound' : calls'.Sound registry' known') {operation operation' : Operation}
    (hlike : operation.Like likeness operation')
    (hcode : ∀ target ∈ operation.successors calls.current.offset, MatchesAt likeness calls calls' target)
    {progress progress' : Progress} (hperformed : calls.perform operation = some progress)
    (hperformed' : calls'.perform operation' = some progress')
    (hcarries : likeness.Carries shared registry progress.constants progress'.constants) :
    progress.Like likeness slack shared progress' := by
  have hfaithful := halike.program.toFaithful
  have hprinted := (Sink.Precedes.of_eq halike.world.sink.written).trans (perform_changes hperformed').precedes
  have hoperands := halike.operands
  have hvalid := hsound.current.operands
  have hvalid' := hsound'.current.operands
  unfold CallStack.perform at hperformed hperformed'
  generalize calls.current.operands = operands at hperformed hoperands hvalid
  generalize calls'.current.operands = operands' at hperformed' hoperands hvalid'
  cases hlike
  case push hvalue =>
    obtain rfl := Option.some.inj hperformed
    obtain rfl := Option.some.inj hperformed'
    exact .next (halike.goesOn (.cons hvalue hoperands) (hcode _ List.mem_cons_self))
  case new layout layout' hlayout =>
    have hcount : layout.fieldCount = layout'.fieldCount := by
      rw [Class.fieldCount, Class.fieldCount, hfaithful.layoutFields hlayout]
    dsimp only at hperformed hperformed'
    rw [← hcount, ← hoperands.length_eq] at hperformed'
    split_ifs at hperformed hperformed'
    obtain rfl := Option.some.inj hperformed
    obtain rfl := Option.some.inj hperformed'
    have hfields := List.rel_reverse (List.forall₂_take layout.fieldCount hoperands)
    have hrest := List.forall₂_drop layout.fieldCount hoperands
    rcases halike.world.allocate hlayout hfields with
      ⟨object, object', world, world', hmade, hmade', hobject, hworld⟩ | ⟨fault, hfull, hfull'⟩ |
      ⟨fault, hfull, hexcused⟩
    · rw [hmade, hmade']
      exact .next ((halike.withWorld hworld).goesOn (.cons hobject hrest) (hcode _ List.mem_cons_self))
    · rw [hfull, hfull']
      exact .failed fault halike.world halike.shared
    · rw [hfull]
      exact .cut hexcused hprinted
  case plain hplain =>
    cases operation
    case push | new => exact absurd hplain id
    case lookup name =>
      obtain rfl := Option.some.inj hperformed
      obtain rfl := Option.some.inj hperformed'
      exact .next (halike.pushCarried hsound.constants hsound'.constants (halike.world.globals name)
        (hsound.world.globals name) (hsound'.world.globals name) hoperands (hcode _ List.mem_cons_self) hcarries)
    case register name =>
      cases hoperands with
      | nil => cases hperformed
      | cons hvalue hrest =>
        obtain rfl := Option.some.inj hperformed
        obtain rfl := Option.some.inj hperformed'
        exact .next ((halike.withWorld (halike.world.register name hvalue)).goesOn hrest
          (hcode _ List.mem_cons_self))
    case load slot =>
      have hlocal := rel_getElem?_of_forall₂ halike.locals slot
      obtain ⟨value, hvalue, rfl⟩ := Option.map_eq_some_iff.mp hperformed
      obtain ⟨value', hvalue', rfl⟩ := Option.map_eq_some_iff.mp hperformed'
      rw [hvalue, hvalue'] at hlocal
      cases hlocal with
      | some hlike => exact .next (halike.goesOn (.cons hlike hoperands) (hcode _ List.mem_cons_self))
    case store slot =>
      cases hoperands with
      | nil => cases hperformed
      | cons hvalue hrest =>
        dsimp only at hperformed hperformed'
        rw [← halike.locals.length_eq] at hperformed'
        split_ifs at hperformed hperformed'
        obtain rfl := Option.some.inj hperformed
        obtain rfl := Option.some.inj hperformed'
        exact .next ⟨⟨halike.world, halike.shared, halike.program, halike.name, halike.offset,
          forall₂_set halike.locals slot hvalue, hrest, halike.callers⟩, hcode _ List.mem_cons_self⟩
    case duplicate =>
      cases hoperands with
      | nil => cases hperformed
      | cons hvalue hrest =>
        obtain rfl := Option.some.inj hperformed
        obtain rfl := Option.some.inj hperformed'
        exact .next (halike.goesOn (.cons hvalue (.cons hvalue hrest)) (hcode _ List.mem_cons_self))
    case pop =>
      cases hoperands with
      | nil => cases hperformed
      | cons _ hrest =>
        obtain rfl := Option.some.inj hperformed
        obtain rfl := Option.some.inj hperformed'
        exact .next (halike.goesOn hrest (hcode _ List.mem_cons_self))
    case swap =>
      rcases hoperands with _ | ⟨hupper, _ | ⟨hlower, hrest⟩⟩
      · cases hperformed
      · cases hperformed
      · obtain rfl := Option.some.inj hperformed
        obtain rfl := Option.some.inj hperformed'
        exact .next (halike.goesOn (.cons hlower (.cons hupper hrest)) (hcode _ List.mem_cons_self))
    case call argumentCount =>
      have htaken := List.rel_reverse (List.forall₂_take argumentCount hoperands)
      have hdropped := List.forall₂_drop argumentCount hoperands
      dsimp only at hperformed hperformed'
      have hall : ∀ value ∈ operands.drop argumentCount, value.Valid registry calls.world.store.records :=
        fun value hvalue ↦ hvalid value (List.mem_of_mem_drop hvalue)
      have hall' : ∀ value ∈ operands'.drop argumentCount, value.Valid registry' calls'.world.store.records :=
        fun value hvalue ↦ hvalid' value (List.mem_of_mem_drop hvalue)
      generalize operands.drop argumentCount = lower at hperformed hdropped hall
      generalize operands'.drop argumentCount = lower' at hperformed' hdropped hall'
      rcases hdropped with _ | ⟨hreceiver, _ | ⟨hcallee, hrest⟩⟩
      · cases hperformed
      · cases hperformed
      · refine halike.call hsound hsound' hcallee hreceiver htaken hrest (fun value hvalue ↦ ?_)
          (fun value hvalue ↦ ?_) (hcode _ List.mem_cons_self) hperformed hperformed' hcarries
        · rcases List.mem_cons.mp hvalue with rfl | hargument
          · exact hall _ List.mem_cons_self
          · exact hvalid value (List.mem_of_mem_take (List.mem_reverse.mp hargument))
        · rcases List.mem_cons.mp hvalue with rfl | hargument
          · exact hall' _ List.mem_cons_self
          · exact hvalid' value (List.mem_of_mem_take (List.mem_reverse.mp hargument))
    case ret =>
      cases hoperands with
      | nil => cases hperformed
      | cons hvalue _ =>
        obtain rfl := Option.some.inj hperformed
        obtain rfl := Option.some.inj hperformed'
        exact halike.leave hvalue
    case goto target =>
      obtain rfl := Option.some.inj hperformed
      obtain rfl := Option.some.inj hperformed'
      exact .next ⟨⟨halike.world, halike.shared, halike.program, halike.name, rfl, halike.locals,
        halike.operands, halike.callers⟩, hcode target List.mem_cons_self⟩
    case jumpIfFalse target =>
      cases hoperands with
      | nil => cases hperformed
      | cons hvalue hrest =>
        dsimp only at hperformed hperformed'
        rw [← hvalue.isFalse_eq] at hperformed'
        split_ifs at hperformed hperformed'
        · obtain rfl := Option.some.inj hperformed
          obtain rfl := Option.some.inj hperformed'
          exact .next ⟨⟨halike.world, halike.shared, halike.program, halike.name, rfl, halike.locals, hrest,
            halike.callers⟩, hcode target List.mem_cons_self⟩
        · obtain rfl := Option.some.inj hperformed
          obtain rfl := Option.some.inj hperformed'
          exact .next (halike.goesOn hrest (hcode _ (by simp [Operation.successors])))
    case get name =>
      cases hoperands with
      | nil => cases hperformed
      | cons hreceiver hrest =>
        obtain rfl := Option.some.inj hperformed
        obtain rfl := Option.some.inj hperformed'
        have hread := halike.world.readField hfaithful hreceiver name
        generalize World.readField calls.world _ name = outcome at hread ⊢
        generalize World.readField calls'.world _ name = outcome' at hread ⊢
        cases hread with
        | ok hvalue =>
          exact .next ((halike.withWorld halike.world).goesOn (.cons hvalue hrest) (hcode _ List.mem_cons_self))
        | error fault => exact .failed fault halike.world halike.shared
    case put name =>
      rcases hoperands with _ | ⟨hvalue, _ | ⟨hreceiver, hrest⟩⟩
      · cases hperformed
      · cases hperformed
      · dsimp only at hperformed hperformed'
        rcases halike.world.writeField hfaithful hreceiver name hvalue with
          ⟨world, world', hwritten, hwritten', hworld⟩ | ⟨fault, hrefused, hrefused'⟩
        · rw [hwritten] at hperformed
          rw [hwritten'] at hperformed'
          obtain rfl := Option.some.inj hperformed
          obtain rfl := Option.some.inj hperformed'
          exact .next ((halike.withWorld hworld).goesOn hrest (hcode _ List.mem_cons_self))
        · rw [hrefused] at hperformed
          rw [hrefused'] at hperformed'
          obtain rfl := Option.some.inj hperformed
          obtain rfl := Option.some.inj hperformed'
          exact .failed fault halike.world halike.shared

end CallStack.Alike

namespace CallStack.Like

variable {likeness : Likeness} {slack : Slack} {shared : Prop} {calls calls' : CallStack}
  {registry registry' : Registry} {known known' : List Value}

/-- Alike calls go on alike. -/
theorem step (hlike : calls.Like likeness slack shared calls') (hvalid : calls.Valid registry known)
    (hvalid' : calls'.Valid registry' known') {progress progress' : Progress}
    (hstep : calls.step = some progress) (hstep' : calls'.step = some progress')
    (hcarries : likeness.Carries shared registry progress.constants progress'.constants) :
    progress.Like likeness slack shared progress' := by
  obtain @⟨_, next, operation, operation', hoperation, hoperation', hsame, -, -, hlater⟩ := hlike.code
  rw [hlike.offset] at hoperation'
  unfold CallStack.step at hstep hstep'
  rw [hoperation] at hstep
  rw [hoperation'] at hstep'
  have hmoved : (calls.withOffset next).Alike likeness slack shared (calls'.withOffset next) :=
    ⟨hlike.world, hlike.shared, hlike.program, hlike.name, rfl, hlike.locals, hlike.operands, hlike.callers⟩
  have hsound : (calls.withOffset next).Sound registry known :=
    ⟨hvalid.world, hvalid.constants, hvalid.code, ⟨hvalid.current.routine, hvalid.current.width,
      hvalid.current.locals, hvalid.current.operands⟩, hvalid.callers, hvalid.resumes⟩
  have hsound' : (calls'.withOffset next).Sound registry' known' :=
    ⟨hvalid'.world, hvalid'.constants, hvalid'.code, ⟨hvalid'.current.routine, hvalid'.current.width,
      hvalid'.current.locals, hvalid'.current.operands⟩, hvalid'.callers, hvalid'.resumes⟩
  exact hmoved.perform hsound hsound' hsame hlater hstep hstep' hcarries

/-- Alike calls need as many words. -/
theorem words_eq (hlike : calls.Like likeness slack shared calls') : calls.words = calls'.words := by
  have hcallers : calls.callers.map Level.words = calls'.callers.map Level.words := by
    have hlevels := hlike.callers
    generalize calls.callers = levels at hlevels
    generalize calls'.callers = levels' at hlevels
    induction hlevels with
    | nil => rfl
    | cons hlevel _ ih => rw [List.map_cons, List.map_cons, hlevel.words_eq, ih]
  rw [words, words, List.map_cons, List.map_cons, hcallers, Level.words, Level.words,
    hlike.locals.length_eq, hlike.operands.length_eq]

end CallStack.Like

end ScriptMachine
