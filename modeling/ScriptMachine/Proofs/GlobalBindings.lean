import ScriptMachine.Proofs.FaultPlaces
import ScriptMachine.Proofs.HeapSessions
import ScriptMachine.Proofs.LikeCalls
import ScriptMachine.Proofs.NamedLiterals

/-!
# Which globals code can bind

Compiled code changes the globals in one way only: at the end of the literal of a function with a name, it binds the
name to the function (`Session.binds_only_literals`). So after a command that has run code, whether it has failed or
not, every name is bound as before, or to a function of that name whose literal was evaluated on the way.

The instruction that binds a name takes any word from the stack. `CallStack.Follows` says how the calls in progress
stand to the literals with a name: outside of them, or inside of one with its function as the topmost operand. Every
step preserves that (`CallStack.Follows.step`), since no jump leads into a literal and no call is inside of one. What a
step does to the globals can be read off from there (`CallStack.Follows.globals`).
-/

set_option autoImplicit false
set_option relaxedAutoImplicit false

namespace ScriptMachine

/-! ### Bindings -/

namespace Globals

variable {globals between later : Globals} {name : String}

/-- A name is bound to the same value before and after, or unbound both times. -/
structure Keeps (globals later : Globals) (name : String) : Prop where
  lookup : later.lookup name = globals.lookup name
  contains : later.contains name = globals.contains name

theorem Keeps.of_eq (hsame : later = globals) (name : String) : globals.Keeps later name :=
  hsame ▸ ⟨rfl, rfl⟩

theorem Keeps.trans (hfirst : globals.Keeps between name) (hsecond : between.Keeps later name) :
    globals.Keeps later name :=
  ⟨hsecond.lookup.trans hfirst.lookup, hsecond.contains.trans hfirst.contains⟩

/-- The name registered last is bound, and every other name is bound if it was. -/
theorem contains_register (globals : Globals) (registered name : String) (value : Value) :
    (globals.register registered value).contains name = (registered == name || globals.contains name) := by
  simp [register, contains, Std.HashMap.contains_insert]

/-- Binding a name leaves every other name as it is. -/
theorem keeps_register {registered : String} (hother : registered ≠ name) (value : Value) :
    globals.Keeps (globals.register registered value) name where
  lookup := by rw [lookup_register, if_neg (by simpa using hother)]
  contains := by rw [contains_register, beq_false_of_ne hother, Bool.false_or]

end Globals

namespace Activity

/-- The next instruction is the end of a literal, in the function that runs, and binds its name to a routine, which is
the code of the literal. -/
structure Binds (activity : Activity) (definitions : List Definition) (inner : Definition) (routine : Routine) :
    Prop where
  written : routine.definition? definitions = some inner
  describes : inner.Describes routine
  ends : ∃ (around : Definition) (start : Nat), activity.frame.routine.definition? definitions = some around ∧
    activity.frame.routine.unit.Names activity.machine.constants around inner routine start ∧
    activity.offset = start + 3

/-- The next instruction, whether it fails or not, leaves the globals as they are, or it is the end of a literal whose
name it binds to the function of the literal. -/
inductive OnlyNames (activity : Activity) (definitions : List Definition) : Prop where
  | keeps (hglobals : (Execution.step.after activity).machine.globals = activity.machine.globals)
  | binds {inner : Definition} {routine : Routine} (hbinds : activity.Binds definitions inner routine)
      (hglobals : (Execution.step.after activity).machine.globals =
        activity.machine.globals.register inner.name (.function (.compiled routine)))

end Activity

/-- Every name is bound as before, or to a function of that name whose literal came to its end in one of the visited
activities. -/
def Globals.NamedBy (globals later : Globals) (definitions : List Definition) (visited : Activity → Prop) : Prop :=
  ∀ name : String, globals.Keeps later name ∨
    ∃ (activity : Activity) (inner : Definition) (routine : Routine), visited activity ∧
      activity.Binds definitions inner routine ∧ inner.name = name ∧ routine.name = name ∧
      later.lookup name = .function (.compiled routine) ∧ later.contains name = true

namespace Globals.NamedBy

variable {globals between later : Globals} {definitions : List Definition} {visited : Activity → Prop}

theorem of_eq (hsame : later = globals) : globals.NamedBy later definitions visited :=
  fun name ↦ Or.inl (.of_eq hsame name)

theorem trans (hfirst : globals.NamedBy between definitions visited)
    (hsecond : between.NamedBy later definitions visited) : globals.NamedBy later definitions visited := by
  intro name
  rcases hsecond name with hkeeps | hnamed
  · refine (hfirst name).imp (fun hbefore ↦ hbefore.trans hkeeps) ?_
    rintro ⟨activity, inner, routine, hvisited, hbinds, hinner, hroutine, hlookup, hcontains⟩
    exact ⟨activity, inner, routine, hvisited, hbinds, hinner, hroutine, hkeeps.lookup.trans hlookup,
      hkeeps.contains.trans hcontains⟩
  · exact Or.inr hnamed

/-- More activities leave more names to be bound. -/
theorem mono {more : Activity → Prop} (hnamed : globals.NamedBy later definitions visited)
    (hmore : ∀ activity : Activity, visited activity → more activity) : globals.NamedBy later definitions more := by
  intro name
  refine (hnamed name).imp_right ?_
  rintro ⟨activity, inner, routine, hvisited, hbound⟩
  exact ⟨activity, inner, routine, hmore activity hvisited, hbound⟩

/-- No name is unbound. -/
theorem contains (hnamed : globals.NamedBy later definitions visited) {name : String}
    (hcontains : globals.contains name = true) : later.contains name = true := by
  rcases hnamed name with hkeeps | ⟨-, -, -, -, -, -, -, -, hbound⟩
  · exact hkeeps.contains.trans hcontains
  · exact hbound

end Globals.NamedBy

/-- What one instruction does to the globals is that names keep their bindings or are bound to functions of literals. -/
theorem Activity.OnlyNames.namedBy {activity : Activity} {definitions : List Definition} {visited : Activity → Prop}
    (honly : activity.OnlyNames definitions) (hvisited : visited activity) :
    activity.machine.globals.NamedBy (Execution.step.after activity).machine.globals definitions visited := by
  cases honly with
  | keeps hglobals => exact .of_eq hglobals
  | @binds inner routine hbinds hglobals =>
    intro name
    rw [hglobals]
    by_cases hsame : inner.name = name
    · refine Or.inr ⟨activity, inner, routine, hvisited, hbinds, hsame, hbinds.describes.name.trans hsame, ?_, ?_⟩
      · rw [Globals.lookup_register, if_pos (beq_iff_eq.mpr hsame)]
      · rw [Globals.contains_register, beq_iff_eq.mpr hsame, Bool.true_or]
    · exact Or.inl (Globals.keeps_register hsame _)

/-! ### Literals on the way -/

namespace CodeUnit.Names

variable {unit : CodeUnit} {table larger : ConstantTable} {around inner : Definition} {routine : Routine} {start : Nat}

/-- A literal begins with its function. -/
theorem operationAt_constant (hnames : unit.Names table around inner routine start)
    (hextends : table.Extends larger) :
    unit.operationAt larger start = some (.push (.function (.compiled routine)), start + 2) := by
  obtain ⟨word, hinstruction, hconstant⟩ := (hnames.mono hextends).constant
  refine CodeUnit.operationAt_eq hinstruction ?_
  rw [Instruction.operation?, ConstantTable.value?_of_constant? hconstant]
  rfl

/-- Then the function is copied. -/
theorem operationAt_duplicate (hnames : unit.Names table around inner routine start) (larger : ConstantTable) :
    unit.operationAt larger (start + 2) = some (.duplicate, start + 3) :=
  CodeUnit.operationAt_eq hnames.duplicate rfl

/-- The last instruction binds the name of the literal. -/
theorem operationAt_register (hnames : unit.Names table around inner routine start)
    (hextends : table.Extends larger) :
    unit.operationAt larger (start + 3) = some (.register inner.name, start + 5) := by
  obtain ⟨word, hinstruction, hname⟩ := (hnames.mono hextends).register
  refine CodeUnit.operationAt_eq hinstruction ?_
  rw [Instruction.operation?, hname]
  rfl

end CodeUnit.Names

/-- A call goes on outside of all literals with a name, or inside of one, with the function of the literal as its
topmost operand. -/
inductive Level.Follows (level : Level) (table : ConstantTable) (around : Definition) : Prop where
  | outside (hnames : level.routine.unit.NamesOnly table around level.offset)
  | inside {inner : Definition} {routine : Routine} {start : Nat} {rest : List Value}
      (hnames : level.routine.unit.Names table around inner routine start)
      (hnext : level.routine.unit.NamesOnly table around (start + 5))
      (hoffset : level.offset = start + 2 ∨ level.offset = start + 3)
      (hoperands : level.operands = .function (.compiled routine) :: rest)

/-- The innermost call is outside of all literals with a name, or inside of one, and its callers wait outside. -/
structure CallStack.Follows (calls : CallStack) (table : ConstantTable) (definitions : List Definition) : Prop where
  constants : table.Extends calls.constants
  current : ∃ around : Definition, calls.current.routine.definition? definitions = some around ∧
    calls.current.Follows table around
  callers : ∀ caller ∈ calls.callers, ∃ around : Definition, caller.routine.definition? definitions = some around ∧
    caller.routine.unit.NamesOnly table around caller.offset

/-- The functions of a registry are described by definitions, together with the literals in them, and bind names only
at the ends of these literals. -/
def Registry.NamesOnly (registry : Registry) (table : ConstantTable) (definitions : List Definition) : Prop :=
  ∀ routine : Routine, registry.functions routine.identity = some (.compiled routine) →
    ∃ definition : Definition, routine.definition? definitions = some definition ∧ definition.Describes routine ∧
      definition.Encloses definitions ∧ routine.unit.NamesOnly table definition 0

namespace CallStack

variable {calls later : CallStack} {table : ConstantTable} {definitions : List Definition} {progress : Progress}

/-- An instruction that binds no name leaves the globals as they are. -/
theorem globals_eq_of_step {instruction : Instruction}
    (hinstruction : calls.current.routine.unit.instructionAt calls.current.offset = .ok instruction)
    (hregister : ∀ name : Word, instruction ≠ .register name) (hstep : calls.step = some progress) :
    progress.world.globals = calls.world.globals := by
  obtain ⟨operation, next, hoperation, hchanges⟩ := step_changes hstep
  obtain ⟨found, hfound, hresolved, -⟩ := CodeUnit.exists_instruction_of_operationAt hoperation
  obtain rfl := Except.ok.inj (hinstruction.symm.trans hfound)
  have hunbound : operation.bound? = none := by
    cases instruction <;> simp only [Instruction.operation?, Option.map_eq_some_iff] at hresolved
    case register name => exact absurd rfl (hregister name)
    case constant | lookup | new | get | put =>
      obtain ⟨_, -, rfl⟩ := hresolved
      rfl
    all_goals
      obtain rfl := Option.some.inj hresolved
      rfl
  rw [hunbound] at hchanges
  exact hchanges.globals_eq

/-- A step at a known operation carries that operation out. -/
theorem step_of_operationAt {operation : Operation} {next : Nat}
    (hoperation : calls.current.routine.unit.operationAt calls.constants calls.current.offset =
      some (operation, next)) : calls.step = (calls.withOffset next).perform operation := by
  unfold step
  rw [hoperation]

namespace Follows

/-- A step from outside of all literals leads into one, or again outside of all literals, in every call. -/
theorem step_outside {around : Definition} (hfollows : calls.Follows table definitions)
    (haround : calls.current.routine.definition? definitions = some around)
    (hnames : calls.current.routine.unit.NamesOnly table around calls.current.offset)
    (hcode : ∃ entered : Definition, later.current.routine.definition? definitions = some entered ∧
      later.current.routine.unit.NamesOnly table entered 0)
    (hstep : calls.step = some (.next later)) : later.Follows table definitions := by
  have hextends := hfollows.constants.trans (step_extends hstep)
  cases hnames with
  | @plain _ instruction hinstruction hregister hnext hjump =>
    obtain ⟨found, operation, hfound, hresolved, hgoesOn⟩ := exists_goesOn hstep
    obtain rfl := Except.ok.inj (hinstruction.symm.trans hfound)
    have hsuccessor : ∀ {level : Level}, level.routine = calls.current.routine →
        level.offset ∈ operation.successors (calls.current.offset + instruction.size) →
        ∃ around : Definition, level.routine.definition? definitions = some around ∧
          level.routine.unit.NamesOnly table around level.offset := by
      intro level hroutine hoffset
      rw [hroutine]
      refine ⟨around, haround, ?_⟩
      rcases Instruction.eq_or_target?_of_successors hresolved hoffset with hbehind | ⟨target, htarget, hsame⟩
      · rw [hbehind]
        refine hnext ?_
        rintro rfl
        -- nothing follows a return
        obtain rfl := Option.some.inj hresolved
        cases hoffset
      · rw [hsame]
        exact hjump target htarget
    cases hgoesOn with
    | within hcallers hroutine hoffset =>
      obtain ⟨same, hsame, hlater⟩ := hsuccessor hroutine hoffset
      exact ⟨hextends, ⟨same, hsame, .outside hlater⟩, hcallers ▸ hfollows.callers⟩
    | enters hcallers hroutine hwaiting hoffset =>
      obtain ⟨entered, hentered, hbeginning⟩ := hcode
      refine ⟨hextends, ⟨entered, hentered, .outside (hoffset ▸ hbeginning)⟩, ?_⟩
      rw [hcallers]
      exact List.forall_mem_cons.mpr ⟨hsuccessor hroutine hwaiting, hfollows.callers⟩
    | leaves hcallers hroutine hoffset =>
      obtain ⟨⟨caller, hcaller, hwaiting⟩, hothers⟩ := List.forall_mem_cons.mp (hcallers ▸ hfollows.callers)
      refine ⟨hextends, ⟨caller, hroutine ▸ hcaller, .outside ?_⟩, hothers⟩
      rw [hroutine, hoffset]
      exact hwaiting
  | literal hliteral hnext =>
    rw [step_of_operationAt (hliteral.operationAt_constant hfollows.constants)] at hstep
    cases hstep
    exact ⟨hextends, ⟨around, haround, .inside hliteral hnext (Or.inl rfl) rfl⟩, hfollows.callers⟩

/-- Calls that follow the literals go on so. -/
theorem step (hfollows : calls.Follows table definitions)
    (hcode : ∃ entered : Definition, later.current.routine.definition? definitions = some entered ∧
      later.current.routine.unit.NamesOnly table entered 0)
    (hstep : calls.step = some (.next later)) : later.Follows table definitions := by
  obtain ⟨around, haround, hcurrent⟩ := hfollows.current
  have hextends := hfollows.constants.trans (step_extends hstep)
  cases hcurrent with
  | outside hnames => exact hfollows.step_outside haround hnames hcode hstep
  | inside hnames hnext hoffset hoperands =>
    rcases hoffset with hcopies | hbinds
    · rw [step_of_operationAt (hcopies ▸ hnames.operationAt_duplicate _)] at hstep
      unfold perform withOffset at hstep
      dsimp only at hstep
      rw [hoperands] at hstep
      cases hstep
      exact ⟨hextends, ⟨around, haround, .inside hnames hnext (Or.inr rfl) rfl⟩, hfollows.callers⟩
    · rw [step_of_operationAt (hbinds ▸ hnames.operationAt_register hfollows.constants)] at hstep
      unfold perform withOffset at hstep
      dsimp only at hstep
      rw [hoperands] at hstep
      cases hstep
      exact ⟨hextends, ⟨around, haround, .outside hnext⟩, hfollows.callers⟩

/-- A step of calls that follow the literals leaves the globals as they are, or it comes to the end of a literal and
binds its name to its function. -/
theorem globals (hfollows : calls.Follows table definitions) (hstep : calls.step = some progress) :
    progress.world.globals = calls.world.globals ∨
      ∃ (around inner : Definition) (routine : Routine) (start : Nat),
        calls.current.routine.definition? definitions = some around ∧
          calls.current.routine.unit.Names table around inner routine start ∧ calls.current.offset = start + 3 ∧
          progress.world.globals = calls.world.globals.register inner.name (.function (.compiled routine)) := by
  obtain ⟨around, haround, hcurrent⟩ := hfollows.current
  cases hcurrent with
  | outside hnames =>
    refine Or.inl ?_
    cases hnames with
    | plain hinstruction hregister => exact globals_eq_of_step hinstruction hregister hstep
    | literal hliteral =>
      obtain ⟨word, hinstruction, -⟩ := hliteral.constant
      exact globals_eq_of_step hinstruction (by rintro _ ⟨⟩) hstep
  | @inside inner routine start rest hnames hnext hoffset hoperands =>
    rcases hoffset with hcopies | hbinds
    · exact Or.inl (globals_eq_of_step (hcopies ▸ hnames.duplicate) (by rintro _ ⟨⟩) hstep)
    · rw [step_of_operationAt (hbinds ▸ hnames.operationAt_register hfollows.constants)] at hstep
      unfold perform withOffset at hstep
      dsimp only at hstep
      rw [hoperands] at hstep
      cases hstep
      exact Or.inr ⟨around, inner, routine, start, haround, hnames, hbinds, rfl⟩

end Follows

end CallStack

/-! ### Runs -/

namespace Tracked

variable {limit : Nat} {registry : Registry} {known : List Value} {start activity : Activity} {chain : FrameChain}
  {calls : CallStack} {table : ConstantTable} {definitions : List Definition}

/-- After an instruction of a running machine the globals are as before, or as the calls have them. -/
theorem globals_after (htracked : Tracked limit registry known activity chain calls) :
    (Execution.step.after activity).machine.globals = activity.machine.globals ∨
      ∃ progress : Progress, calls.step = some progress ∧
        (Execution.step.after activity).machine.globals = progress.world.globals := by
  unfold Execution.after
  cases hresult : Execution.step activity with
  | error fault final =>
    exact Or.inl (Activity.leavesBehind_of_error htracked.mirrors.realizes.fits.top_le hresult).globals
  | ok value next =>
    obtain ⟨instruction, progress, -, hstep, -, hcorresponds⟩ := htracked.step
    rw [hresult] at hcorresponds
    refine Or.inr ⟨progress, hstep, ?_⟩
    cases progress with
    | next later =>
      rcases hcorresponds with ⟨found, laterChain, hok, hmirrors, -⟩ | ⟨final, hfull, -⟩
      · cases hok
        exact hmirrors.realizes.globals
      · cases hfull
    | finished result world constants =>
      obtain ⟨final, frame, offset, hok, -, hrealizes⟩ := hcorresponds
      cases hok
      exact hrealizes.globals
    | failed fault world constants =>
      obtain ⟨final, herror, -⟩ := hcorresponds
      cases herror

/-- An instruction of calls that follow the literals binds nothing but the name of a literal. -/
theorem onlyNames (htracked : Tracked limit registry known activity chain calls)
    (hregistry : registry.NamesOnly table definitions) (hfollows : calls.Follows table definitions) :
    activity.OnlyNames definitions := by
  have hmirrors := htracked.mirrors
  have hglobals : activity.machine.globals = calls.world.globals := hmirrors.realizes.globals
  rcases htracked.globals_after with hkeeps | ⟨progress, hstep, hlater⟩
  · exact .keeps hkeeps
  rcases hfollows.globals hstep with hkeeps | ⟨around, inner, routine, start, haround, hnames, hoffset, hbound⟩
  · exact .keeps (hlater.trans (hkeeps.trans hglobals.symm))
  -- the function of the literal is a constant, so it is registered
  have hconstants : activity.machine.constants = calls.constants := hmirrors.realizes.constants
  obtain ⟨word, -, hconstant⟩ := (hnames.mono hfollows.constants).constant
  have hregistered : Value.Valid registry [] (.function (.compiled routine)) :=
    htracked.valid.constants.valid_of_value? (ConstantTable.value?_of_constant? hconstant)
  obtain ⟨definition, hdefinition, hdescribes, -, -⟩ := hregistry routine hregistered
  obtain ⟨outer, houter, -, hencloses, -⟩ := hregistry _ htracked.valid.current.routine
  obtain rfl := Option.some.inj (houter.symm.trans haround)
  have hinner : routine.definition? definitions = some inner := by
    unfold Routine.definition?
    rw [hnames.identity]
    exact (hencloses inner hnames.enclosed).2
  obtain rfl := Option.some.inj (hdefinition.symm.trans hinner)
  have hroutine : activity.frame.routine = calls.current.routine :=
    (congrArg Frame.routine hmirrors.realizes.frame).trans hmirrors.current.routine
  refine .binds ⟨hinner, hdescribes, outer, start, hroutine ▸ haround, ?_, ?_⟩
    (hlater.trans (hbound.trans (congrArg (Globals.register · _ _) hglobals.symm)))
  · rw [hroutine, hconstants]
    exact hnames.mono hfollows.constants
  · exact hmirrors.realizes.offset.trans (hmirrors.current.offset.trans hoffset)

/-- Calls that follow the literals do so on the whole run. -/
theorem exists_follows (htracked : Tracked limit registry known start chain calls)
    (hregistry : registry.NamesOnly table definitions) (hfollows : calls.Follows table definitions)
    (hreaches : start.Reaches activity) :
    ∃ (later : FrameChain) (nextCalls : CallStack), Tracked limit registry known activity later nextCalls ∧
      nextCalls.Follows table definitions := by
  induction hreaches with
  | refl => exact ⟨chain, calls, htracked, hfollows⟩
  | tail _ hcontinues ih =>
    obtain ⟨between, betweenCalls, hbetween, hstill⟩ := ih
    obtain ⟨instruction, later, nextCalls, -, hlater, hstep, -, -⟩ := hbetween.of_continues hcontinues
    obtain ⟨entered, hentered, -, -, hcode⟩ := hregistry _ hlater.valid.current.routine
    exact ⟨later, nextCalls, hlater, hstill.step ⟨entered, hentered, hcode⟩ hstep⟩

end Tracked

namespace Activity

variable {start activity : Activity} {definitions : List Definition}

/-- On a run whose instructions bind only the names of literals, names are bound to the functions of literals. -/
theorem Reaches.namedBy (hreaches : start.Reaches activity)
    (honly : ∀ reached : Activity, start.Reaches reached → reached.OnlyNames definitions) :
    start.machine.globals.NamedBy activity.machine.globals definitions start.Reaches := by
  induction hreaches with
  | refl => exact .of_eq rfl
  | @tail between next hbetween hcontinues ih =>
    have hafter : Execution.step.after between = next := by rw [Execution.after, hcontinues]
    exact ih.trans (hafter ▸ (honly between hbetween).namedBy hbetween)

end Activity

/-! ### Commands -/

namespace Machine.Ready

variable {machine later : Machine} {known : List Value} {closures : List Closure} {registry : Registry}
  {world : World} {routine : Routine} {arguments : List Value} {definitions : List Definition}

/-- A call of a ready machine binds only the names of literals. -/
theorem onlyNames (hready : machine.Ready known closures registry world routine arguments)
    (hsmall : 4294967296 < machine.stack.limit → ∀ start : Activity,
      machine.Enters routine .undefined arguments start → ¬ start.Crowds)
    (hregistry : registry.NamesOnly machine.constants definitions) {start activity : Activity}
    (henters : machine.Enters routine .undefined arguments start) (hreaches : start.Reaches activity) :
    activity.OnlyNames definitions := by
  rcases hready.rests.enters (by omega) hready.registered hready.values hready.size with
    ⟨begun, chain, hbegun, -, -, -, hmirrors, hvalid⟩ | ⟨hnever, -⟩
  · obtain rfl := hbegun.unique henters
    have htracked : Tracked machine.stack.limit registry known begun chain _ :=
      ⟨hmirrors, hvalid, fun hlarge ↦ hsmall hlarge begun hbegun⟩
    obtain ⟨entered, hentered, -, -, hcode⟩ := hregistry routine hready.registered
    have hextends := (machine.constants.box_extends (.function (.compiled routine))).trans
      (ConstantTable.carryAll_extends _ (.undefined :: arguments))
    obtain ⟨chain, calls, hreached, hfollows⟩ := htracked.exists_follows hregistry
      ⟨hextends, ⟨entered, hentered, .outside hcode⟩, List.forall_mem_nil _⟩ hreaches
    exact hreached.onlyNames hregistry hfollows
  · exact absurd henters (hnever start)

/-- After a call of a ready machine, every name is bound as before, or to the function of a literal. -/
theorem namedBy (hready : machine.Ready known closures registry world routine arguments)
    (hsmall : 4294967296 < machine.stack.limit → ∀ start : Activity,
      machine.Enters routine .undefined arguments start → ¬ start.Crowds)
    (hregistry : registry.NamesOnly machine.constants definitions) {steps : Nat}
    {outcome : CallOutcome} (hinvoked : machine.invokeRoutine steps routine .undefined arguments = some outcome) :
    machine.globals.NamedBy outcome.2.globals definitions fun activity ↦
      ∃ start : Activity, machine.Enters routine .undefined arguments start ∧ start.Reaches activity := by
  have hglobals : machine.globals = world.globals := hready.rests.realizes.shows.globals
  rcases hready.rests.enters (by omega) hready.registered hready.values hready.size with
    ⟨start, chain, henters, -, -, -, hmirrors, -⟩ | ⟨-, fault, refused, final, hrefused, hrests, -⟩
  · rw [henters.invokeRoutine_eq] at hinvoked
    obtain ⟨found, hrun, hcut⟩ := Option.map_eq_some_iff.mp hinvoked
    have hstart : start.machine.globals = machine.globals := Eq.trans hmirrors.realizes.globals hglobals.symm
    have honly : ∀ reached : Activity, start.Reaches reached → reached.OnlyNames definitions :=
      fun _ ↦ hready.onlyNames hsmall hregistry henters
    obtain ⟨last, hlast, hended⟩ := Activity.exists_last hrun
    -- the stack that is cut back after a fault holds no globals
    have hkept : outcome.2.globals = (Execution.step.after last).machine.globals := by
      rw [← hcut]
      rcases hended with ⟨value, final, hanswered, rfl⟩ | ⟨fault, final, hfailed, rfl⟩
      · rw [Execution.after, hanswered]
        rfl
      · rw [Execution.after, hfailed]
        rfl
    have hnamed := (hlast.namedBy honly).trans ((honly last hlast).namedBy hlast)
    rw [hstart, ← hkept] at hnamed
    exact hnamed.mono fun activity hreached ↦ ⟨start, henters, hreached⟩
  · cases (hrefused steps).symm.trans hinvoked
    exact .of_eq (hrests.realizes.shows.globals.trans hglobals.symm)

end Machine.Ready

namespace Engine.Consistent

variable {engine next : Engine} {known : List Value} {definitions : List Definition} {command : Command}

/-- While the code of a command runs, all functions bind names only at the ends of literals. -/
theorem registry_namesOnly (hconsistent : engine.Consistent known (definitions.map Definition.toClosure))
    (hcover : Definition.Cover definitions (engine.machine.constants.entries.toList ++ known))
    (haddresses : engine.Addresses known command) {routine : Routine} {arguments : List Value}
    (hruns : engine.runs? command = some (routine, arguments)) {registry : Registry} {world : World}
    (hready : (engine.prepared command).machine.Ready known
      (engine.closures command ++ definitions.map Definition.toClosure) registry world routine arguments)
    (hlisted : registry.Listed (.function (.compiled routine) ::
      ((engine.prepared command).machine.constants.entries.toList ++ known))) :
    registry.NamesOnly (engine.prepared command).machine.constants (engine.definitions command ++ definitions) := by
  intro found hfound
  obtain ⟨definition, hdefinition, hdescribes, hencloses, hcompiled, hsize⟩ :=
    hconsistent.exists_definition hcover haddresses hruns hready hlisted hfound
  exact ⟨definition, hdefinition, hdescribes, hencloses, hcompiled.namesOnly hsize⟩

end Engine.Consistent

/-! ### Sessions -/

/-- Commands of a session other than the registration of a global bind names only at the ends of literals in the code
that they run: no instruction does anything else to the globals. So after the command, whether it has failed or not,
every name is bound as before, or to a function of that name whose literal came to its end on the way, and no name is
unbound. -/
theorem Session.binds_only_literals {engine next : Engine} {known : List Value} {definitions : List Definition}
    {command : Command} (hwritten : Session.Written engine known definitions)
    (hadmissible : command.Admissible known) (haddresses : engine.Addresses known command)
    (hsmall : engine.StaysSmall command) (hother : ∀ (name : String) (value : Value), command ≠ .register name value)
    {steps : Nat} {answer : Answer} (hperformed : engine.perform steps command = some (answer, next)) :
    (∀ activity : Activity, engine.Visits command activity →
        activity.OnlyNames (engine.definitions command ++ definitions)) ∧
      engine.machine.globals.NamedBy next.machine.globals (engine.definitions command ++ definitions)
        (engine.Visits command) ∧
      ∀ name : String, engine.machine.globals.contains name = true → next.machine.globals.contains name = true := by
  have hconsistent := hwritten.session.consistent
  suffices hboth : (∀ activity : Activity, engine.Visits command activity →
        activity.OnlyNames (engine.definitions command ++ definitions)) ∧
      engine.machine.globals.NamedBy next.machine.globals (engine.definitions command ++ definitions)
        (engine.Visits command) from
    ⟨hboth.1, hboth.2, fun _ ↦ hboth.2.contains⟩
  cases hruns : engine.runs? command with
  | none =>
    refine ⟨?_, ?_⟩
    · rintro activity ⟨start, ⟨routine, arguments, hsome, -⟩, -⟩
      cases hruns.symm.trans hsome
    · have hreplies := Engine.replies_of_perform hruns hperformed
      rcases hconsistent.idle_cases hreplies with ⟨name, value, hregisters, -⟩ | hgrows
      · exact absurd hregisters (hother name value)
      · exact .of_eq hgrows.globals
  | some run =>
    obtain ⟨routine, arguments⟩ := run
    obtain ⟨registry, world, -, hready, hlisted⟩ := hconsistent.ready hadmissible haddresses hruns
    have hregistry := hconsistent.registry_namesOnly hwritten.cover haddresses hruns hready hlisted
    refine ⟨?_, ?_⟩
    · rintro activity ⟨start, ⟨other, passed, hsome, henters⟩, hreaches⟩
      cases hruns.symm.trans hsome
      exact hready.onlyNames (hsmall.not_crowds hruns) hregistry henters hreaches
    · rw [Engine.perform_of_runs? hruns] at hperformed
      obtain ⟨outcome, hinvoked, hanswer⟩ := Option.map_eq_some_iff.mp hperformed
      have hnext : next.machine = outcome.2 := by
        obtain ⟨_ | _, _⟩ := outcome <;> cases hanswer <;> rfl
      have hnamed := hready.namedBy (hsmall.not_crowds hruns) hregistry hinvoked
      rw [(hconsistent.prepared_grows command).globals, ← hnext] at hnamed
      refine hnamed.mono ?_
      rintro activity ⟨start, henters, hreaches⟩
      exact ⟨start, ⟨routine, arguments, hruns, henters⟩, hreaches⟩

end ScriptMachine
