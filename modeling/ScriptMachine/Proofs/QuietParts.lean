import ScriptMachine.Machine.Run
import ScriptMachine.Proofs.Snapshot

/-!
# Parts of instructions

`Execution.after` is the activity after something that an instruction does, whether it fails or not, and what relates
the activities before and after two parts relates those before and after both in a row (`Execution.after_bind`). Most
parts only look at the activity (`Execution.Looks`), or they are quiet: they change the stack, where the code goes on,
what was printed, and add constants, but nothing else (`Execution.Quiet`). Most instructions consist of quiet parts
(`Execution.quiet_execute`). Calls and returns also change the frame that runs, but neither heap nor globals
(`Execution.Calm`, `Execution.calm_execute`).
-/

set_option autoImplicit false
set_option relaxedAutoImplicit false

namespace ScriptMachine

/-! ### Quiet changes -/

namespace Activity

/-- An activity with the same heap and globals and maybe more constants, in which no identity was given away. -/
structure Calm (activity later : Activity) : Prop where
  heap : later.machine.heap = activity.machine.heap
  globals : later.machine.globals = activity.machine.globals
  constants : activity.machine.constants.Extends later.machine.constants
  nextIdentity : later.machine.nextIdentity = activity.machine.nextIdentity

theorem Calm.refl (activity : Activity) : activity.Calm activity :=
  ⟨rfl, rfl, .refl _, rfl⟩

theorem Calm.trans {first second third : Activity} (hfirst : first.Calm second) (hsecond : second.Calm third) :
    first.Calm third :=
  ⟨hsecond.heap.trans hfirst.heap, hsecond.globals.trans hfirst.globals, hfirst.constants.trans hsecond.constants,
    hsecond.nextIdentity.trans hfirst.nextIdentity⟩

/-- A calm change in which the same frame goes on. -/
structure Quiet (activity later : Activity) : Prop extends activity.Calm later where
  frame : later.frame = activity.frame

theorem Quiet.refl (activity : Activity) : activity.Quiet activity :=
  ⟨.refl activity, rfl⟩

theorem Quiet.trans {first second third : Activity} (hfirst : first.Quiet second) (hsecond : second.Quiet third) :
    first.Quiet third :=
  ⟨hfirst.toCalm.trans hsecond.toCalm, hsecond.frame.trans hfirst.frame⟩

/-- Changes of the stack are quiet. -/
theorem quiet_mapStack (activity : Activity) (change : Stack → Stack) : activity.Quiet (activity.mapStack change) :=
  ⟨⟨rfl, rfl, .refl _, rfl⟩, rfl⟩

end Activity

/-! ### What comes after something -/

/-- A native function changes nothing but what was printed. -/
theorem Machine.exists_of_applyNative {operation : Native} {receiver : Value} {arguments : List Value}
    {machine next : Machine}
    (happlied : (∃ value : Value, Machine.applyNative operation receiver arguments machine = .ok value next) ∨
      ∃ fault : Fault, Machine.applyNative operation receiver arguments machine = .error fault next) :
    ∃ sink : Sink, next = { machine with sink := sink } := by
  unfold applyNative at happlied
  cases operation with
  | builtin builtin =>
    unfold onSink at happlied
    dsimp only at happlied
    cases hresult : builtin.apply arguments machine.sink with
    | ok found sink | error found sink =>
      rw [hresult] at happlied
      rcases happlied with ⟨_, hsame⟩ | ⟨_, hsame⟩ <;> cases hsame
      exact ⟨sink, rfl⟩
  | host position =>
    have hsame : next = machine := by
      dsimp only at happlied
      cases hfound : machine.hosts[position]? with
      | none =>
        rw [hfound] at happlied
        rcases happlied with ⟨_, hsame⟩ | ⟨_, hsame⟩ <;> cases hsame
        rfl
      | some behaviour =>
        rw [hfound] at happlied
        dsimp only at happlied
        cases hresult : behaviour receiver arguments <;> rw [hresult] at happlied <;>
          rcases happlied with ⟨_, hsame⟩ | ⟨_, hsame⟩ <;> cases hsame <;> rfl
    exact ⟨machine.sink, hsame⟩

namespace Execution

variable {α β : Type} {activity next : Activity} {part : Execution α} {value : α} {fault : Fault}

/-- The activity after something, whether it fails or not. -/
def after (action : Execution α) (activity : Activity) : Activity :=
  match action activity with
  | .ok _ next => next
  | .error _ next => next

theorem after_of_error (herror : part activity = .error fault next) : part.after activity = next := by
  rw [Execution.after, herror]

/-- What follows something that succeeds comes after it. -/
theorem after_bind_of_ok (rest : α → Execution β) (hpart : part activity = .ok value next) :
    (part >>= rest).after activity = (rest value).after next := by
  unfold Execution.after
  rw [bind_of_ok hpart]

/-- Nothing comes after something that fails. -/
theorem after_bind_of_error (rest : α → Execution β) (hpart : part activity = .error fault next) :
    (part >>= rest).after activity = next := by
  unfold Execution.after
  rw [bind_of_error hpart]

/-- What follows looking at the whole activity. -/
theorem after_get_bind (rest : Activity → Execution β) (activity : Activity) :
    (get >>= rest).after activity = (rest activity).after activity :=
  rfl

section Relations

variable {relation : Activity → Activity → Prop} {rest : α → Execution β}

/-- What relates the activities before and after each of two parts relates those before and after both. -/
theorem after_bind
    (htrans : ∀ {first second third : Activity}, relation first second → relation second third → relation first third)
    (hpart : ∀ activity : Activity, relation activity (part.after activity))
    (hrest : ∀ (value : α) (activity : Activity), relation activity ((rest value).after activity))
    (activity : Activity) : relation activity ((part >>= rest).after activity) := by
  have hfirst := hpart activity
  cases hresult : part activity with
  | ok value next =>
    rw [Execution.after, hresult] at hfirst
    rw [after_bind_of_ok rest hresult]
    exact htrans hfirst (hrest value next)
  | error fault next =>
    rw [after_of_error hresult] at hfirst
    rwa [after_bind_of_error rest hresult]

/-- The same where the second part fails. -/
theorem fails_bind
    (htrans : ∀ {first second third : Activity}, relation first second → relation second third → relation first third)
    (hpart : ∀ activity : Activity, relation activity (part.after activity))
    (hrest : ∀ (value : α) (activity final : Activity) (fault : Fault),
      rest value activity = .error fault final → relation activity final)
    (activity final : Activity) (fault : Fault) (herror : (part >>= rest) activity = .error fault final) :
    relation activity final := by
  have hfirst := hpart activity
  cases hresult : part activity with
  | ok value next =>
    rw [Execution.after, hresult] at hfirst
    rw [bind_of_ok hresult] at herror
    exact htrans hfirst (hrest value _ _ _ herror)
  | error found next =>
    rw [after_of_error hresult] at hfirst
    rw [bind_of_error hresult] at herror
    cases herror
    exact hfirst

end Relations

/-! ### Looking at the activity -/

/-- Something only looks at the activity, and leaves it as it is. -/
def Looks (action : Execution α) : Prop :=
  ∀ activity : Activity, action.after activity = activity

namespace Looks

theorem pure (value : α) : Looks (Pure.pure value : Execution α) :=
  fun _ ↦ rfl

theorem throw (fault : Fault) : Looks (throwThe Fault fault : Execution α) :=
  fun _ ↦ rfl

theorem bind {part : Execution α} {rest : α → Execution β} (hpart : Looks part)
    (hrest : ∀ value : α, Looks (rest value)) : Looks (part >>= rest) :=
  @after_bind _ _ part (fun activity later ↦ later = activity) rest (fun hfirst hsecond ↦ hsecond.trans hfirst) hpart
    hrest

theorem ofExcept (outcome : Except Fault α) : Looks (Execution.ofExcept outcome) := by
  intro activity
  cases outcome <;> rfl

theorem decode (word : Word) : Looks (Execution.decode word) :=
  fun activity ↦ ofExcept _ activity

theorem decodeAll (words : List Word) : Looks (Execution.decodeAll words) := by
  induction words with
  | nil => exact pure []
  | cons word rest ih => exact (decode word).bind fun _ ↦ ih.bind fun _ ↦ pure _

theorem nameOf (word : Word) : Looks (Execution.nameOf word) := by
  refine (decode word).bind fun value ↦ ?_
  cases value <;> first | exact pure _ | exact throw _

theorem functionOf (word : Word) : Looks (Execution.functionOf word) := by
  refine (decode word).bind fun value ↦ ?_
  cases value <;> first | exact pure _ | exact throw _

theorem classOf (word : Word) : Looks (Execution.classOf word) := by
  refine (decode word).bind fun value ↦ ?_
  cases value <;> first | exact pure _ | exact throw _

theorem typeNameOf (word : Word) : Looks (Execution.typeNameOf word) := by
  intro activity
  unfold Execution.after Execution.typeNameOf
  cases activity.machine.decode word <;> rfl

theorem objectOf (word : Word) : Looks (Execution.objectOf word) := by
  unfold Execution.objectOf
  cases word.reference? with
  | none => exact (typeNameOf word).bind fun _ ↦ throw _
  | some index =>
    refine (decode word).bind fun value ↦ ?_
    cases value <;> first | exact pure _ | exact throw _

theorem peek : Looks Execution.peek := by
  intro activity
  unfold Execution.after Execution.peek
  split_ifs <;> rfl

theorem isFalse (word : Word) : Looks (Execution.isFalse word) :=
  fun _ ↦ rfl

theorem slotOf (operand : UInt32) : Looks (Execution.slotOf operand) := by
  intro activity
  unfold Execution.after Execution.slotOf
  dsimp only
  split_ifs <;> rfl

theorem readSlot (slot : Nat) : Looks (Execution.readSlot slot) :=
  fun _ ↦ rfl

theorem readField (object : ObjectRef) (name : String) : Looks (Execution.readField object name) := by
  intro activity
  unfold Execution.after Execution.readField
  cases object.layout.slotOf? name <;> rfl

theorem lookup (name : String) : Looks (Execution.lookup name) :=
  fun _ ↦ rfl

end Looks

/-- A native function, whether it fails or not, changes nothing but what was printed. -/
theorem after_applyNative (operation : Native) (receiver : Value) (arguments : List Value)
    (activity : Activity) : ∃ sink : Sink,
      (applyNative operation receiver arguments).after activity =
        { activity with machine := { activity.machine with sink := sink } } := by
  obtain ⟨machine, frame, offset⟩ := activity
  unfold Execution.after applyNative onMachine
  dsimp only
  cases happlied : Machine.applyNative operation receiver arguments machine with
  | ok value next =>
    obtain ⟨sink, rfl⟩ := Machine.exists_of_applyNative (Or.inl ⟨value, happlied⟩)
    exact ⟨sink, rfl⟩
  | error fault next =>
    obtain ⟨sink, rfl⟩ := Machine.exists_of_applyNative (Or.inr ⟨fault, happlied⟩)
    exact ⟨sink, rfl⟩

/-! ### Quiet parts -/

/-- Something changes nothing but the stack, where the code goes on, what was printed, and constants that are added,
whether it fails or not. -/
def Quiet (action : Execution α) : Prop :=
  ∀ activity : Activity, activity.Quiet (action.after activity)

theorem Looks.quiet {action : Execution α} (hlooks : Looks action) : Quiet action :=
  fun activity ↦ (hlooks activity).symm ▸ .refl activity

namespace Quiet

theorem bind {part : Execution α} {rest : α → Execution β} (hpart : Quiet part)
    (hrest : ∀ value : α, Quiet (rest value)) : Quiet (part >>= rest) :=
  after_bind Activity.Quiet.trans hpart hrest

theorem push (word : Word) : Quiet (Execution.push word) := by
  intro activity
  unfold Execution.after Execution.push
  split_ifs
  · exact activity.quiet_mapStack _
  · exact .refl activity

theorem pop : Quiet Execution.pop := by
  intro activity
  unfold Execution.after Execution.pop
  split_ifs
  · exact .refl activity
  · exact activity.quiet_mapStack _

theorem cutStack (top : Nat) : Quiet (Execution.cutStack top) :=
  fun _ ↦ ⟨⟨rfl, rfl, .refl _, rfl⟩, rfl⟩

theorem writeSlot (slot : Nat) (word : Word) : Quiet (Execution.writeSlot slot word) :=
  fun _ ↦ ⟨⟨rfl, rfl, .refl _, rfl⟩, rfl⟩

theorem jump (target : Nat) : Quiet (Execution.jump target) :=
  fun _ ↦ ⟨⟨rfl, rfl, .refl _, rfl⟩, rfl⟩

theorem encode (value : Value) : Quiet (Execution.encode value) := by
  intro activity
  unfold Execution.after Execution.encode Machine.encode
  cases value.inlineWord? with
  | some word => exact .refl activity
  | none => exact ⟨⟨rfl, rfl, ConstantTable.box_extends _ _, rfl⟩, rfl⟩

theorem enter (routine : Routine) (argumentCount : Nat) (returnOffset caller : Word) :
    Quiet (Execution.enter routine argumentCount returnOffset caller) := by
  intro activity
  unfold Execution.after Execution.enter
  dsimp only
  split_ifs
  · exact .refl activity
  · exact .refl activity
  · exact activity.quiet_mapStack _
  · exact .refl activity

theorem applyNative (operation : Native) (receiver : Value) (arguments : List Value) :
    Quiet (Execution.applyNative operation receiver arguments) := by
  intro activity
  obtain ⟨sink, hafter⟩ := after_applyNative operation receiver arguments activity
  rw [hafter]
  exact ⟨⟨rfl, rfl, .refl _, rfl⟩, rfl⟩

theorem pushAll (values : List Value) : Quiet (Execution.pushAll values) := by
  induction values with
  | nil => exact (Looks.pure _).quiet
  | cons value rest ih => exact (encode value).bind fun _ ↦ (push _).bind fun _ ↦ ih

theorem enterFromHost (frame : Frame) (receiver : Value) (arguments : List Value) :
    Quiet (Execution.enterFromHost frame receiver arguments) :=
  (push _).bind fun _ ↦ (encode receiver).bind fun _ ↦ (push _).bind fun _ ↦
    (pushAll arguments).bind fun _ ↦ enter _ _ _ _

end Quiet

/-! ### Calls and returns -/

/-- Something changes neither heap nor globals, and adds nothing but constants, whether it fails or not. -/
def Calm (action : Execution α) : Prop :=
  ∀ activity : Activity, activity.Calm (action.after activity)

theorem Quiet.calm {action : Execution α} (hquiet : Quiet action) : Calm action :=
  fun activity ↦ (hquiet activity).toCalm

namespace Calm

theorem bind {part : Execution α} {rest : α → Execution β} (hpart : Calm part)
    (hrest : ∀ value : α, Calm (rest value)) : Calm (part >>= rest) :=
  after_bind Activity.Calm.trans hpart hrest

theorem call (argumentCount : Nat) : Calm (Execution.call argumentCount) := by
  intro activity
  unfold Execution.after Execution.call
  dsimp only
  split_ifs
  · exact .refl activity
  · refine bind (Looks.functionOf _).quiet.calm (fun callee ↦ ?_) activity
    cases callee with
    | native identity name operation =>
      exact ((Looks.decode _).quiet.bind fun _ ↦ (Looks.decodeAll _).quiet.bind fun _ ↦
        (Quiet.applyNative _ _ _).bind fun _ ↦ (Quiet.encode _).bind fun _ ↦ (Quiet.cutStack _).bind fun _ ↦
          Quiet.push _).calm
    | compiled routine => exact (Quiet.enter _ _ _ _).calm.bind fun _ _ ↦ ⟨rfl, rfl, .refl _, rfl⟩

/-- What goes on with another activity. -/
theorem set_bind {rest : PUnit → Execution β} (hrest : Calm (rest ⟨⟩)) {activity next : Activity}
    (hnext : activity.Calm next) : activity.Calm ((set next >>= rest : Execution β).after activity) :=
  hnext.trans (hrest next)

theorem leave : Calm Execution.leave := by
  refine Quiet.pop.calm.bind fun result activity ↦ ?_
  rw [after_get_bind]
  refine set_bind ?_ (activity.quiet_mapStack _).toCalm
  split_ifs
  · exact ((Looks.decode _).bind fun _ ↦ Looks.pure _).quiet.calm
  · refine (Looks.functionOf _).quiet.calm.bind fun callee ↦ ?_
    cases callee with
    | native identity name operation => exact (Looks.throw _).quiet.calm
    | compiled routine =>
      exact bind (fun _ ↦ ⟨rfl, rfl, .refl _, rfl⟩) fun _ ↦ ((Quiet.push _).bind fun _ ↦ (Looks.pure _).quiet).calm

end Calm

end Execution

/-! ### Instructions -/

/-- Instructions that neither bind a name, nor make an object or assign a field. -/
def Instruction.IsCalm : Instruction → Prop
  | .register _ | .new _ | .put _ => False
  | _ => True

/-- Calm instructions that neither call nor return. -/
def Instruction.IsQuiet : Instruction → Prop
  | .call _ | .ret | .register _ | .new _ | .put _ => False
  | _ => True

namespace Execution

/-- Quiet instructions are put together of quiet parts. -/
theorem quiet_execute {instruction : Instruction} (hquiet : instruction.IsQuiet) : Quiet (execute instruction) := by
  have hdone : Quiet (Pure.pure none : Execution (Option Value)) := (Looks.pure _).quiet
  cases instruction with
  | constant word => exact (Quiet.push _).bind fun _ ↦ hdone
  | lookup name =>
    exact (Looks.nameOf _).quiet.bind fun _ ↦ (Looks.lookup _).quiet.bind fun _ ↦ (Quiet.encode _).bind fun _ ↦
      (Quiet.push _).bind fun _ ↦ hdone
  | load slot =>
    exact (Looks.slotOf _).quiet.bind fun _ ↦ (Looks.readSlot _).quiet.bind fun _ ↦ (Quiet.push _).bind fun _ ↦ hdone
  | store slot =>
    exact (Looks.slotOf _).quiet.bind fun _ ↦ Quiet.pop.bind fun _ ↦ (Quiet.writeSlot _ _).bind fun _ ↦ hdone
  | duplicate => exact Looks.peek.quiet.bind fun _ ↦ (Quiet.push _).bind fun _ ↦ hdone
  | pop => exact Quiet.pop.bind fun _ ↦ hdone
  | swap =>
    exact Quiet.pop.bind fun _ ↦ Quiet.pop.bind fun _ ↦ (Quiet.push _).bind fun _ ↦ (Quiet.push _).bind fun _ ↦ hdone
  | goto target => exact (Quiet.jump _).bind fun _ ↦ hdone
  | jumpIfFalse target =>
    refine Quiet.pop.bind fun _ ↦ (Looks.isFalse _).quiet.bind fun holds ↦ ?_
    cases holds with
    | true => exact (Quiet.jump _).bind fun _ ↦ hdone
    | false => exact hdone
  | get name =>
    exact (Looks.nameOf _).quiet.bind fun _ ↦ Quiet.pop.bind fun _ ↦ (Looks.objectOf _).quiet.bind fun _ ↦
      (Looks.readField _ _).quiet.bind fun _ ↦ (Quiet.push _).bind fun _ ↦ hdone
  | register | call | ret | new | put => exact hquiet.elim

/-- Calm instructions change neither heap nor globals. -/
theorem calm_execute {instruction : Instruction} (hcalm : instruction.IsCalm) : Calm (execute instruction) := by
  cases instruction
  case call argumentCount => exact (Calm.call _).bind fun _ ↦ (Looks.pure _).quiet.calm
  case ret => exact Calm.leave
  case register | new | put => exact hcalm.elim
  all_goals exact Quiet.calm (quiet_execute trivial)

end Execution

end ScriptMachine
