import ScriptMachine.Proofs.Leading
import ScriptMachine.Proofs.SafeLowering

/-!
# Code follows the tree

Where the code of a part of a program stands, calls that run it follow the evaluation of the part
(`Lowered.follows`). The proof goes through the code piece by piece, as the compiler has put it together,
and takes for granted that calls of functions follow the evaluation of their bodies
(`Program.Supports`). `Program.supports_apply` then makes this good by induction on how deep calls may be
nested.
-/

set_option autoImplicit false
set_option relaxedAutoImplicit false

namespace ScriptMachine

/-! ### Values of parts -/

/-- Evaluates a part of a program to the values that it leaves. -/
def Part.evaluate (program : Program) (apply : Callable) (first : Nat) : Part → Evaluation (List Value)
  | .node tree => do
    let value ← tree.evaluate program apply first
    return if tree.isStatement then [] else [value]
  | .value tree => do
    let value ← tree.evaluate program apply first
    return [value]
  | .statement tree => do
    let _ ← tree.evaluate program apply first
    return []
  | .values trees => evaluateValues program apply first trees
  | .statements trees => do
    evaluateStatements program apply first trees
    return []
  | .fields members => evaluateFields program apply first members

/-- Something that ends with an answer that does not depend on what comes before has that answer. -/
theorem Evaluation.eq_of_bind_pure {α β : Type} {part : Evaluation α} {answer value : β}
    {locale after : Locale} (hresult : (part >>= fun _ ↦ pure answer : Evaluation β) locale = .ok value after) :
    value = answer := by
  simp only [bind, EStateM.bind, pure, EStateM.pure] at hresult
  cases hpart : part locale with
  | ok first second =>
    rw [hpart] at hresult
    exact (EStateM.Result.ok.inj hresult).1.symm
  | error signal second =>
    rw [hpart] at hresult
    cases hresult

/-- A statement has the value undefined. -/
theorem Node.eq_undefined_of_isStatement {tree : Node} (hstatement : tree.isStatement = true)
    {program : Program} {apply : Callable} {first : Nat} {locale after : Locale} {value : Value}
    (hresult : tree.evaluate program apply first locale = .ok value after) : value = .undefined := by
  cases tree
  case block body =>
    rw [Node.evaluate] at hresult
    exact Evaluation.eq_of_bind_pure hresult
  case assignment name value declares line =>
    rw [Node.evaluate, ← bind_assoc] at hresult
    exact Evaluation.eq_of_bind_pure hresult
  case ret value line =>
    rw [Node.evaluate] at hresult
    simp only [bind, EStateM.bind] at hresult
    split at hresult
    · cases hresult
    · cases hresult
  case conditional condition thenBlock elseBlock line =>
    rw [Node.evaluate, ← bind_assoc] at hresult
    exact Evaluation.eq_of_bind_pure hresult
  case fieldAssignment receiver name value line =>
    rw [Node.evaluate] at hresult
    simp only [← bind_assoc] at hresult
    exact Evaluation.eq_of_bind_pure hresult
  all_goals cases hstatement

/-- Among valid constants, a function is found by its identity. -/
theorem Program.functionAt_eq {program : Program} {registry : Registry}
    (hvalid : program.constants.Valid registry) {routine : Routine}
    (hmem : .function (.compiled routine) ∈ program.constants.entries) :
    program.functionAt routine.identity = .function (.compiled routine) := by
  unfold Program.functionAt
  generalize hsearch : program.constants.entries.find? _ = found
  cases found with
  | none =>
    have hnone := Array.find?_eq_none.mp hsearch _ hmem
    simp at hnone
  | some entry =>
    have hentry := hvalid.valid _ (Array.mem_of_find?_eq_some hsearch)
    have hroutine : registry.functions routine.identity = some (.compiled routine) := hvalid.valid _ hmem
    have hfound := Array.find?_some hsearch
    split at hfound
    case h_1 other =>
      have hother : registry.functions other.identity = some (.compiled other) := hentry
      rw [beq_iff_eq.mp hfound, hroutine] at hother
      rw [Option.getD_some, Option.some.inj hother]
    case h_2 => cases hfound

namespace Body.Follows

variable {α β : Type} {body : Body} {calls : CallStack}

/-- Following an evaluation whose answer is changed in the end is following the evaluation. -/
theorem map_iff {part : Evaluation α} {change : α → β} {locale : Locale}
    {goal : β → Locale → CallStack → Prop} :
    body.Follows calls ((part >>= fun value ↦ pure (change value) : Evaluation β) locale) goal ↔
      body.Follows calls (part locale) fun value ↦ goal (change value) := by
  unfold Body.Follows
  simp only [Bind.bind, EStateM.bind, Pure.pure, EStateM.pure]
  cases part locale with
  | ok value after => exact Iff.rfl
  | error signal after =>
    cases signal with
    | returned value => exact Iff.rfl
    | stopped stop => exact Iff.rfl

/-- Calls that follow an evaluation may go on when it has a value. -/
theorem extend {result : EStateM.Result Signal Locale α} {goal further : α → Locale → CallStack → Prop}
    (hfollows : body.Follows calls result goal)
    (hfurther : ∀ (value : α) (after : Locale), result = .ok value after → ∀ reached : CallStack,
      goal value after reached → reached.Leads (further value after)) :
    body.Follows calls result further := by
  cases result with
  | ok value after => exact CallStack.Leads.bind hfollows (hfurther value after rfl)
  | error signal after =>
    refine CallStack.Leads.mono hfollows fun reached hmatches ↦ ?_
    cases signal with
    | returned value => exact hmatches
    | stopped stop => exact hmatches

end Body.Follows

/-! ### Calls of functions -/

/-- Where calls stand when a value that was called has answered: the caller goes on with the answer on top
of its operands, or the calls have stopped. -/
def CallStack.Answers (registry : Registry) (known : List Value) (constants : ConstantTable)
    (caller : Level) (callers : List Level) (bound : Nat) (calls : CallStack) :
    EStateM.Result Stop World Value → Prop
  | .ok value world =>
    calls.Valid registry known ∧ constants.Extends calls.constants ∧ calls.world = world ∧
      calls.callers = callers ∧ calls.current = { caller with operands := value :: caller.operands }
  | .error stop world => calls.StopsFor bound world stop

/-- Calls of values follow a way of calling them, with a bound on how deep calls are nested. -/
def Program.Supports (program : Program) (registry : Registry) (known : List Value) (depth : Nat)
    (apply : Callable) : Prop :=
  ∀ (calls : CallStack) (next : Nat) (callee receiver : Value) (arguments rest : List Value),
    calls.Valid registry known → program.constants.Extends calls.constants →
    calls.next? = some (.call arguments.length, next) →
    calls.current.operands = arguments.reverse ++ receiver :: callee :: rest →
    calls.Leads fun reached ↦
      reached.Answers registry known program.constants
        ⟨calls.current.routine, next, calls.current.locals, rest⟩ calls.callers
        (calls.callers.length + depth) (apply callee receiver arguments calls.world)

/-- A value is called. -/
theorem Body.Stands.call {body : Body} {locale : Locale} {offset next : Nat} {calls : CallStack}
    {callee receiver : Value} {arguments operands : List Value}
    (hstands : body.Stands locale offset (arguments.reverse ++ receiver :: callee :: operands) calls)
    {depth : Nat} {apply : Callable} (hbound : body.bound = body.callers.length + depth)
    (hsupports : body.program.Supports body.registry body.known depth apply)
    (hoperation : body.routine.unit.operationAt body.program.constants offset =
      some (.call arguments.length, next)) :
    body.Follows calls (Evaluation.call apply callee receiver arguments locale) fun value after ↦
      body.Stands after next (value :: operands) := by
  have hleads := hsupports calls next callee receiver arguments operands hstands.valid hstands.constants
    (hstands.next?_eq hoperation) hstands.operands
  unfold Evaluation.call
  rw [hstands.world] at hleads
  refine CallStack.Leads.mono hleads fun reached hreached ↦ ?_
  cases hresult : apply callee receiver arguments locale.world with
  | ok value world =>
    rw [hresult] at hreached
    obtain ⟨hvalid, hextends, hworld, hcallers, hcurrent⟩ := hreached
    refine ⟨hvalid, hextends, hworld, ?_, ?_, ?_, hcallers.trans hstands.callers, ?_⟩
    · rw [hcurrent]
      exact hstands.routine
    · rw [hcurrent]
    · rw [hcurrent]
    · rw [hcurrent]
      exact hstands.agrees
  | error stop world =>
    rw [hresult, hstands.callers, ← hbound] at hreached
    exact hreached

/-! ### Parts of programs -/

/-- An evaluation of a tree for its value is one of the tree as a part. -/
theorem Body.Follows.of_value {running : Body} {calls : CallStack} {program : Program} {apply : Callable}
    {first : Nat} {tree : Node} {locale : Locale} {goal : List Value → Locale → CallStack → Prop}
    (hfollows : running.Follows calls ((Part.value tree).evaluate program apply first locale) goal) :
    running.Follows calls (tree.evaluate program apply first locale) fun value ↦ goal [value] :=
  Body.Follows.map_iff.mp hfollows

/-- What comes of one part and then another one comes of the second one. -/
theorem Evaluation.exists_of_bind {α β : Type} {part : Evaluation α} {rest : α → Evaluation β}
    {locale after : Locale} {answer : β} (hresult : (part >>= rest) locale = .ok answer after) :
    ∃ (value : α) (between : Locale), part locale = .ok value between ∧
      rest value between = .ok answer after := by
  simp only [bind, EStateM.bind] at hresult
  cases hpart : part locale with
  | ok value between =>
    rw [hpart] at hresult
    exact ⟨value, between, rfl, hresult⟩
  | error signal between =>
    rw [hpart] at hresult
    cases hresult

/-- A part is evaluated to as many values as its code leaves. -/
theorem Part.length_of_evaluate {program : Program} {apply : Callable} {first : Nat} {part : Part}
    {locale after : Locale} {values : List Value}
    (hresult : part.evaluate program apply first locale = .ok values after) :
    values.length = part.valueCount := by
  cases part with
  | node tree =>
    obtain ⟨value, between, -, hvalues⟩ := Evaluation.exists_of_bind hresult
    rw [← (EStateM.Result.ok.inj hvalues).1, Part.valueCount]
    split_ifs <;> rfl
  | value tree =>
    obtain ⟨value, between, -, hvalues⟩ := Evaluation.exists_of_bind hresult
    rw [← (EStateM.Result.ok.inj hvalues).1]
    rfl
  | statement tree | statements trees =>
    obtain ⟨value, between, -, hvalues⟩ := Evaluation.exists_of_bind hresult
    rw [← (EStateM.Result.ok.inj hvalues).1]
    rfl
  | values trees =>
    rw [Part.evaluate] at hresult
    induction trees generalizing first locale values with
    | nil =>
      rw [evaluateValues] at hresult
      rw [← (EStateM.Result.ok.inj hresult).1]
      rfl
    | cons tree rest ih =>
      rw [evaluateValues] at hresult
      obtain ⟨value, second, -, hrest⟩ := Evaluation.exists_of_bind hresult
      obtain ⟨others, third, hothers, hvalues⟩ := Evaluation.exists_of_bind hrest
      obtain ⟨hsame, rfl⟩ := EStateM.Result.ok.inj hvalues
      rw [← hsame, List.length_cons, ih hothers]
      rfl
  | fields members =>
    rw [Part.evaluate] at hresult
    induction members generalizing first locale values with
    | nil =>
      rw [evaluateFields] at hresult
      rw [← (EStateM.Result.ok.inj hresult).1]
      rfl
    | cons member rest ih =>
      rw [evaluateFields] at hresult
      obtain ⟨value, second, -, hrest⟩ := Evaluation.exists_of_bind hresult
      obtain ⟨others, third, hothers, hvalues⟩ := Evaluation.exists_of_bind hrest
      obtain ⟨hsame, rfl⟩ := EStateM.Result.ok.inj hvalues
      rw [← hsame, List.length_cons, ih hothers]
      rfl

/-- Calls that follow the evaluation of a part have as many values in the end as its code leaves. -/
theorem Body.Follows.withLength {running : Body} {calls : CallStack} {program : Program}
    {apply : Callable} {first : Nat} {part : Part} {locale : Locale}
    {goal : List Value → Locale → CallStack → Prop}
    (hfollows : running.Follows calls (part.evaluate program apply first locale) goal) :
    running.Follows calls (part.evaluate program apply first locale) fun values after reached ↦
      values.length = part.valueCount ∧ goal values after reached :=
  hfollows.extend fun _ _ hresult _ hgoal ↦
    CallStack.Leads.here ⟨Part.length_of_evaluate hresult, hgoal⟩

namespace Lowered

variable {running : Body} {first : Nat} {part : Part} {code : Fragment} {depth : Nat} {apply : Callable}

/-- Where the code of a part stands, calls follow the evaluation of the part to its values. -/
theorem follows (hlowered : Lowered running.program.constants running.slots first part code)
    (hconstants : running.program.constants.Valid running.registry)
    (hwidth : running.routine.unit.slotCount = running.slots.size)
    (hsize : running.routine.unit.code.size < 4294967296)
    (hbound : running.bound = running.callers.length + depth)
    (hsupports : running.program.Supports running.registry running.known depth apply)
    {offset : Nat} {operands : List Value} {locale : Locale} {calls : CallStack}
    (hcode : running.routine.unit.HasAt offset code)
    (hstands : running.Stands locale offset operands calls) :
    running.Follows calls (part.evaluate running.program apply first locale) fun values after ↦
      running.Stands after (offset + Fragment.size code) (values.reverse ++ operands) := by
  have hundefined : running.program.constants.value? [] Word.undefined = some .undefined :=
    ConstantTable.value?_undefined [] hconstants.undefined
  have hnumber : ∀ {number : Nat}, number ≤ running.routine.unit.code.size →
      (UInt32.ofNat number).toNat = number :=
    fun hsmall ↦ UInt32.toNat_ofNat_of_lt' (Nat.lt_of_le_of_lt hsmall hsize)
  induction hlowered generalizing offset operands locale calls with
  | @block first body code _ ih =>
    have hbody := Body.Follows.map_iff.mp (ih hcode hstands)
    refine Body.Follows.map_iff.mpr ?_
    rw [Node.evaluate]
    exact Body.Follows.map_iff.mpr hbody
  | @literal first value line word hword =>
    refine Body.Follows.map_iff.mpr ?_
    rw [Node.evaluate]
    exact hstands.push (hcode.operationAt (Emission.operation?_constant hword))
  | @localAccess first name line slot hslot =>
    refine Body.Follows.map_iff.mpr ?_
    rw [Node.evaluate]
    exact hstands.load hwidth hslot (hcode.operationAt rfl)
  | @globalAccess first name line word hslot hword =>
    refine Body.Follows.map_iff.mpr ?_
    rw [Node.evaluate]
    exact hstands.lookup hslot (hcode.operationAt (Emission.operation?_lookup hword))
  | @assignment first name value declares line code slot _ hslot ih =>
    obtain ⟨hvalueCode, hstore⟩ := hcode.append
    refine Body.Follows.map_iff.mpr ?_
    rw [Node.evaluate, Fragment.size_append, ← Nat.add_assoc]
    refine (ih hvalueCode hstands).of_value.bind fun result after reached hreached ↦ ?_
    refine Body.Follows.map_iff.mpr ?_
    exact hreached.store hwidth hslot (hstore.operationAt rfl)
  | @anonymous first parameters body line word routine hword hidentity =>
    have hvalue : running.program.constants.value? [] word = some (.function (.compiled routine)) :=
      ConstantTable.value?_of_constant? hword
    refine Body.Follows.map_iff.mpr ?_
    rw [Node.evaluate, ← hidentity,
      Program.functionAt_eq hconstants (ConstantTable.mem_of_constant? hword)]
    exact hstands.push (hcode.operationAt (Emission.operation?_constant hvalue))
  | @named first name parameters body line word nameWord routine hword hidentity hline hname =>
    have hvalue : running.program.constants.value? [] word = some (.function (.compiled routine)) :=
      ConstantTable.value?_of_constant? hword
    refine Body.Follows.map_iff.mpr ?_
    rw [Node.evaluate, ← hidentity,
      Program.functionAt_eq hconstants (ConstantTable.mem_of_constant? hword)]
    refine CallStack.Leads.bind (hstands.push (hcode.operationAt (Emission.operation?_constant hvalue)))
      fun second hsecond ↦ ?_
    refine CallStack.Leads.bind (hsecond.duplicate (hcode.cons.2.operationAt rfl)) fun third hthird ↦ ?_
    refine Body.Follows.map_iff.mpr ?_
    exact hthird.register (hcode.cons.2.cons.2.operationAt (Emission.operation?_register hname))
  | @call first callee arguments line calleeCode argumentCode _ harguments ihCallee ihArguments =>
    obtain ⟨hfront, hcall⟩ := hcode.append
    obtain ⟨hfront, hargumentCode⟩ := hfront.append
    obtain ⟨hcalleeCode, hundefinedCode⟩ := hfront.append
    have hcount := harguments.toNat_length hargumentCode hsize
    simp only [Fragment.size_append, ← Nat.add_assoc] at hcall hargumentCode hundefinedCode ⊢
    refine Body.Follows.map_iff.mpr ?_
    rw [Node.evaluate]
    refine (ihCallee hcalleeCode hstands).of_value.bind fun function second reached hreached ↦ ?_
    refine CallStack.Leads.bind
      (hreached.push (hundefinedCode.operationAt (Emission.operation?_constant hundefined))) fun third hthird ↦ ?_
    refine (ihArguments hargumentCode hthird).withLength.bind fun values last final hfinal ↦ ?_
    refine hfinal.2.call hbound hsupports ?_
    rw [show values.length = arguments.length from hfinal.1]
    exact hcall.operationAt (Emission.operation?_call hcount)
  | @methodCall first receiver name arguments line receiverCode argumentCode word _ hword harguments
      ihReceiver ihArguments =>
    obtain ⟨hfront, hcall⟩ := hcode.append
    obtain ⟨hfront, hargumentCode⟩ := hfront.append
    obtain ⟨hreceiverCode, hmethod⟩ := hfront.append
    have hcount := harguments.toNat_length hargumentCode hsize
    simp only [Fragment.size_append, ← Nat.add_assoc] at hcall hargumentCode hmethod ⊢
    refine Body.Follows.map_iff.mpr ?_
    rw [Node.evaluate]
    refine (ihReceiver hreceiverCode hstands).of_value.bind fun object second reached hreached ↦ ?_
    refine CallStack.Leads.bind (hreached.duplicate (hmethod.operationAt rfl)) fun third hthird ↦ ?_
    refine (hthird.get (hmethod.cons.2.operationAt (Emission.operation?_get hword))).bind
        fun function fourth got hgot ↦ ?_
    refine CallStack.Leads.bind (hgot.swap (hmethod.cons.2.cons.2.operationAt rfl)) fun fifth hfifth ↦ ?_
    refine (ihArguments hargumentCode hfifth).withLength.bind fun values last final hfinal ↦ ?_
    refine hfinal.2.call hbound hsupports ?_
    rw [show values.length = arguments.length from hfinal.1]
    exact hcall.operationAt (Emission.operation?_call hcount)
  | @ret first value line code _ ih =>
    obtain ⟨hvalueCode, hret⟩ := hcode.append
    refine Body.Follows.map_iff.mpr ?_
    rw [Node.evaluate]
    refine (ih hvalueCode hstands).of_value.bind fun result after reached hreached ↦ ?_
    exact CallStack.Leads.here ⟨⟨_, hreached.next?_eq (hret.operationAt rfl)⟩, hreached.world,
      hreached.callers, operands, hreached.operands⟩
  | @conditional first condition thenBlock elseBlock line conditionCode thenCode elseCode _ _ _
      ihCondition ihThen ihElse =>
    obtain ⟨hconditionCode, hbranch, hthenCode, hskip, helseCode⟩ := hcode.branch
    rw [Fragment.size_branch]
    obtain ⟨start, hstart⟩ : ∃ start : Nat, offset + Fragment.size conditionCode = start := ⟨_, rfl⟩
    rw [hstart] at hskip hthenCode helseCode hbranch ⊢
    have hend : start + 2 + Fragment.size thenCode + 2 + Fragment.size elseCode ≤
        running.routine.unit.code.size := helseCode.le_size
    have hjump : running.routine.unit.operationAt running.program.constants start =
        some (.jumpIfFalse (start + 2 + (Fragment.size thenCode + 2)), start + 2) :=
      hbranch.operationAt
        (congrArg (fun target ↦ some (Operation.jumpIfFalse target)) (hnumber (by omega)))
    have hgoto : running.routine.unit.operationAt running.program.constants
          (start + 2 + Fragment.size thenCode) =
        some (.goto (start + 2 + Fragment.size thenCode + 2 + Fragment.size elseCode),
          start + 2 + Fragment.size thenCode + 2) :=
      hskip.operationAt (congrArg (fun target ↦ some (Operation.goto target)) (hnumber hend))
    refine Body.Follows.map_iff.mpr ?_
    rw [Node.evaluate]
    refine (ihCondition hconditionCode hstands).of_value.bind fun decision after reached hreached ↦ ?_
    refine Body.Follows.map_iff.mpr ?_
    rw [hstart] at hreached
    refine CallStack.Leads.bind (hreached.jumpIfFalse hjump) fun second hsecond ↦ ?_
    cases hfalse : decision.isFalse with
    | true =>
      rw [hfalse, if_pos rfl, ← Nat.add_assoc] at hsecond
      exact Body.Follows.map_iff.mp (ihElse helseCode hsecond)
    | false =>
      rw [hfalse, if_neg Bool.false_ne_true] at hsecond
      refine Body.Follows.extend (Body.Follows.map_iff.mp (ihThen hthenCode hsecond))
        fun _ last _ third hthird ↦ ?_
      exact hthird.goto hgoto
  | @object first fields line code word _ hword ih =>
    obtain ⟨hfieldCode, hnew⟩ := hcode.append
    refine Body.Follows.map_iff.mpr ?_
    rw [Node.evaluate, Fragment.size_append, ← Nat.add_assoc]
    refine (ih hfieldCode hstands).withLength.bind fun values after reached hreached ↦ ?_
    refine hreached.2.new ?_ (hnew.operationAt (Emission.operation?_new hword))
    rw [hreached.1, Class.fieldCount, List.length_map]
    rfl
  | @fieldAccess first receiver name line code word _ hword ih =>
    obtain ⟨hreceiverCode, hget⟩ := hcode.append
    refine Body.Follows.map_iff.mpr ?_
    rw [Node.evaluate, Fragment.size_append, ← Nat.add_assoc]
    refine (ih hreceiverCode hstands).of_value.bind fun object after reached hreached ↦ ?_
    exact hreached.get (hget.operationAt (Emission.operation?_get hword))
  | @fieldAssignment first receiver name value line receiverCode valueCode word _ _ hword ihReceiver
      ihValue =>
    obtain ⟨hfront, hput⟩ := hcode.append
    obtain ⟨hreceiverCode, hvalueCode⟩ := hfront.append
    simp only [Fragment.size_append, ← Nat.add_assoc] at hput ⊢
    refine Body.Follows.map_iff.mpr ?_
    rw [Node.evaluate]
    refine (ihReceiver hreceiverCode hstands).of_value.bind fun object second reached hreached ↦ ?_
    refine (ihValue hvalueCode hreached).of_value.bind fun result third last hlast ↦ ?_
    refine Body.Follows.map_iff.mpr ?_
    exact hlast.put (hput.operationAt (Emission.operation?_put hword))
  | @value first node code _ ih =>
    refine Body.Follows.map_iff.mpr ?_
    unfold Lowering.valueOf at hcode ⊢
    split_ifs at hcode ⊢ with hstatement
    · obtain ⟨hnodeCode, hundefinedCode⟩ := hcode.append
      rw [Fragment.size_append, ← Nat.add_assoc]
      refine (Body.Follows.map_iff.mp (ih hnodeCode hstands)).extend
        fun value after hresult reached hreached ↦ ?_
      rw [if_pos hstatement] at hreached
      rw [Node.eq_undefined_of_isStatement hstatement hresult]
      exact hreached.push (hundefinedCode.operationAt (Emission.operation?_constant hundefined))
    · refine (Body.Follows.map_iff.mp (ih hcode hstands)).mono fun value after reached hreached ↦ ?_
      rw [if_neg hstatement] at hreached
      exact hreached
  | @statement first node code _ ih =>
    refine Body.Follows.map_iff.mpr ?_
    unfold Lowering.statementOf at hcode ⊢
    split_ifs at hcode ⊢ with hstatement
    · refine (Body.Follows.map_iff.mp (ih hcode hstands)).mono fun value after reached hreached ↦ ?_
      rw [if_pos hstatement] at hreached
      exact hreached
    · obtain ⟨hnodeCode, hpop⟩ := hcode.append
      rw [Fragment.size_append, ← Nat.add_assoc]
      refine (Body.Follows.map_iff.mp (ih hnodeCode hstands)).extend
        fun value after hresult reached hreached ↦ ?_
      rw [if_neg hstatement] at hreached
      exact hreached.pop (hpop.operationAt rfl)
  | noValues | noFields =>
    rw [Part.evaluate]
    first
    | rw [evaluateValues]
    | rw [evaluateFields]
    exact Body.Follows.done hstands
  | noStatements =>
    refine Body.Follows.map_iff.mpr ?_
    rw [evaluateStatements]
    exact Body.Follows.done hstands
  | @values first node rest code restCode _ _ ihNode ihRest =>
    obtain ⟨hnodeCode, hrestCode⟩ := hcode.append
    rw [Part.evaluate, evaluateValues, Fragment.size_append, ← Nat.add_assoc]
    refine (ihNode hnodeCode hstands).of_value.bind fun value after reached hreached ↦ ?_
    refine Body.Follows.map_iff.mpr ((ihRest hrestCode hreached).mono fun values last final hfinal ↦ ?_)
    rw [List.reverse_cons, List.append_assoc]
    exact hfinal
  | @statements first node rest code restCode _ _ ihNode ihRest =>
    obtain ⟨hnodeCode, hrestCode⟩ := hcode.append
    refine Body.Follows.map_iff.mpr ?_
    rw [evaluateStatements, Fragment.size_append, ← Nat.add_assoc]
    refine (Body.Follows.map_iff.mp (ihNode hnodeCode hstands)).bind fun value after reached hreached ↦ ?_
    exact Body.Follows.map_iff.mp (ihRest hrestCode hreached)
  | @fields first field rest code restCode _ _ ihNode ihRest =>
    obtain ⟨hnodeCode, hrestCode⟩ := hcode.append
    rw [Part.evaluate, evaluateFields, Fragment.size_append, ← Nat.add_assoc]
    refine (ihNode hnodeCode hstands).of_value.bind fun value after reached hreached ↦ ?_
    refine Body.Follows.map_iff.mpr ((ihRest hrestCode hreached).mono fun values last final hfinal ↦ ?_)
    rw [List.reverse_cons, List.append_assoc]
    exact hfinal

end Lowered

end ScriptMachine
