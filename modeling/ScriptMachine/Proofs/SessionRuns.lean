import ScriptMachine.Proofs.Commands
import ScriptMachine.Proofs.Consistency

/-!
# Sessions stay consistent

A command that runs code finds its machine ready: it is at rest, and knows the function and the arguments
(`Engine.Consistent.ready`). So the call ends as `Machine.Rests.exists_invokeRoutine` says, and the machine
after it is consistent again (`Machine.Ready.of_invokeRoutine`). With what the other commands do, every
engine of a session is consistent (`Session.consistent`), and none of its answers reports a fault of broken
code (`Engine.Consistent.perform`).
-/

set_option autoImplicit false
set_option relaxedAutoImplicit false

namespace ScriptMachine

/-! ### Outcomes of calls -/

/-- Whatever a machine answers, it is at rest again, and answers with a valid value or with no fault of broken
code. -/
theorem CallStack.Settles.rests {registry : Registry} {known : List Value} {limit : Nat}
    {entry : List Word} {base : Nat} {calls : CallStack} {outcome : CallOutcome}
    (hsettles : calls.Settles registry known limit entry base outcome) :
    ∃ (world : World) (constants : ConstantTable),
      outcome.2.Rests registry known limit entry base world constants ∧
      calls.constants.Extends constants ∧
      (∀ value : Value, outcome.1 = .ok value → value.Valid registry world.store.records) ∧
      ∀ located : LocatedFault, outcome.1 = .error located → ¬ located.fault.Internal := by
  cases hsettles with
  | finished hends hvalue hrests hwithin =>
    refine ⟨_, _, hrests, (hwithin calls .refl).constants, fun value hsame ↦ ?_, by rintro _ ⟨⟩⟩
    obtain rfl := Except.ok.inj hsame
    exact hvalue
  | failed hends hinternal hrests hwithin =>
    refine ⟨_, _, hrests, (hwithin calls .refl).constants, by rintro _ ⟨⟩, fun _ hsame ↦ ?_⟩
    obtain rfl := Except.error.inj hsame
    exact hinternal
  | overflows hfault hreaches hwords hrests =>
    refine ⟨_, _, hrests, hreaches.extends, by rintro _ ⟨⟩, fun _ hsame ↦ ?_⟩
    obtain rfl := Except.error.inj hsame
    rw [hfault]
    exact id

/-! ### Machines that are ready for a call -/

/-- More values list the same functions. -/
theorem Registry.Listed.mono {registry : Registry} {values more : List Value}
    (hlisted : registry.Listed values) (hmore : values ⊆ more) : registry.Listed more :=
  fun identity routine hroutine ↦ hmore (hlisted identity routine hroutine)

/-- The same functions are listed when values are handed out. -/
theorem Registry.Listed.handOut {registry : Registry} {entries known : List Value}
    (hlisted : registry.Listed (entries ++ known)) (given : List Value) :
    registry.Listed (entries ++ (given ++ known)) := by
  refine hlisted.mono fun value hvalue ↦ ?_
  rcases List.mem_append.mp hvalue with hentry | hknown
  · exact List.mem_append_left _ hentry
  · exact List.mem_append_right _ (List.mem_append_right _ hknown)

/-- A function is listed among the known values once it is handed out. -/
theorem Registry.Listed.handOut_main {registry : Registry} {entries known : List Value} {main : Value}
    (hlisted : registry.Listed (main :: (entries ++ known))) : registry.Listed (entries ++ main :: known) :=
  hlisted.mono List.perm_middle.symm.subset

/-- All entries of a table are among those of a larger one. -/
theorem ConstantTable.Extends.toList_subset {smaller larger : ConstantTable}
    (hextends : smaller.Extends larger) : smaller.entries.toList ⊆ larger.entries.toList :=
  fun _ hentry ↦ Array.mem_toList_iff.mpr (hextends.mem (Array.mem_toList_iff.mp hentry))

/-- A consistent machine is ready to call a compiled function with some arguments. -/
structure Machine.Ready (machine : Machine) (known : List Value) (closures : List Closure)
    (registry : Registry) (world : World) (routine : Routine) (arguments : List Value) : Prop where
  consistent : machine.Consistent known closures registry world
  rests : machine.Rests registry known machine.stack.limit [] 0 world machine.constants
  registered : registry.functions routine.identity = some (.compiled routine)
  arguments : ∀ value ∈ arguments, value.Valid registry world.store.records
  size : (machine.constants.box (.function (.compiled routine))).2.size ≤ Word.indexLimit

namespace Machine.Ready

variable {machine : Machine} {known : List Value} {closures : List Closure} {registry : Registry}
  {world : World} {routine : Routine} {arguments : List Value}

/-- The receiver and the arguments of a call are valid. -/
theorem values (hready : machine.Ready known closures registry world routine arguments) :
    ∀ value ∈ .undefined :: arguments, value.Valid registry world.store.records := by
  intro value hvalue
  rcases List.mem_cons.mp hvalue with rfl | hargument
  · trivial
  · exact hready.arguments value hargument

/-- A machine that is at rest after a call is consistent again. -/
theorem of_rests (hready : machine.Ready known closures registry world routine arguments) {later : Machine}
    {laterWorld : World} {constants : ConstantTable}
    (hlater : later.Rests registry known machine.stack.limit [] 0 laterWorld constants)
    (hextends : (machine.constants.box (.function (.compiled routine))).2.Extends constants)
    (hidentity : later.nextIdentity = machine.nextIdentity) :
    later.Consistent known closures registry laterWorld ∧
      (machine.constants.box (.function (.compiled routine))).2.Extends later.constants := by
  have hsame : later.constants = constants := hlater.realizes.constants
  have hgrown := (machine.constants.box_extends (.function (.compiled routine))).trans hextends
  rw [← hsame] at hextends hgrown
  refine ⟨⟨?_, hlater.visible, ⟨?_, ?_, ?_⟩, fun identity found hfound ↦ ?_⟩, hextends⟩
  · rw [hsame, hlater.realizes.limit]
    exact hlater.realizes
  · rw [hsame]
    exact hlater.entries
  · rw [hidentity]
    exact hready.consistent.workspace.functions
  · rw [hidentity]
    exact hready.consistent.workspace.layouts
  · obtain ⟨closure, hclosure, hcompiled⟩ := hready.consistent.compiled identity found hfound
    exact ⟨closure, hclosure, fun final hfinal hsize ↦ hcompiled final (hgrown.trans hfinal) hsize⟩

/-- A machine is consistent after a call, which answers with a valid value or with no fault of broken
code. -/
theorem of_invokeRoutine (hready : machine.Ready known closures registry world routine arguments)
    (hsmall : 4294967296 < machine.stack.limit → ∀ start : Activity,
      machine.Enters routine .undefined arguments start → ¬ start.Crowds)
    {steps : Nat} {outcome : CallOutcome}
    (hinvoked : machine.invokeRoutine steps routine .undefined arguments = some outcome) :
    ∃ later : World, outcome.2.Consistent known closures registry later ∧
      (machine.constants.box (.function (.compiled routine))).2.Extends outcome.2.constants ∧
      (∀ value : Value, outcome.1 = .ok value → value.Valid registry later.store.records) ∧
      ∀ located : LocatedFault, outcome.1 = .error located → ¬ located.fault.Internal := by
  have hrests : ∃ (later : World) (constants : ConstantTable),
      outcome.2.Rests registry known machine.stack.limit [] 0 later constants ∧
      (machine.constants.box (.function (.compiled routine))).2.Extends constants ∧
      (∀ value : Value, outcome.1 = .ok value → value.Valid registry later.store.records) ∧
      ∀ located : LocatedFault, outcome.1 = .error located → ¬ located.fault.Internal := by
    rcases hready.rests.exists_invokeRoutine (by decide) hready.registered hready.values hready.size with
      ⟨found, hfound, houtcome⟩ | ⟨hlarge, start, henters, hcrowds⟩
    · have hmore := Machine.invokeRoutine_mono
        (Nat.le_max_left steps (CallStack.rankBase ^ (machine.stack.limit + 1))) hinvoked
      rw [hfound _ (Nat.le_max_right _ _)] at hmore
      obtain rfl := Option.some.inj hmore
      rcases houtcome with ⟨-, hsettles⟩ | ⟨located, later, final, rfl, hlater, hextends, hfault⟩
      · obtain ⟨later, constants, hlater, hextends, hvalue, hinternal⟩ := hsettles.rests
        have hboxed := (machine.constants.box (.function (.compiled routine))).2.carryAll_extends
          (.undefined :: arguments)
        exact ⟨later, constants, hlater, hboxed.trans hextends, hvalue, hinternal⟩
      · refine ⟨world, final, hlater, hextends, by rintro _ ⟨⟩, fun _ hsame ↦ ?_⟩
        obtain rfl := Except.error.inj hsame
        rcases hfault with ⟨hfault, -⟩ | ⟨-, hfault⟩ <;>
          · rw [hfault]
            exact id
    · exact absurd hcrowds (hsmall hlarge start henters)
  obtain ⟨later, constants, hlater, hextends, hvalue, hinternal⟩ := hrests
  obtain ⟨hconsistent, hgrown⟩ := hready.of_rests hlater hextends (Machine.invokeRoutine_nextIdentity hinvoked)
  exact ⟨later, hconsistent, hgrown, hvalue, hinternal⟩

/-- After a call, all compiled functions are among the constants or known if they were before, or if they were the
function that was called. -/
theorem listed (hready : machine.Ready known closures registry world routine arguments) {constants : ConstantTable}
    (hextends : (machine.constants.box (.function (.compiled routine))).2.Extends constants)
    (hlisted : registry.Listed (.function (.compiled routine) :: (machine.constants.entries.toList ++ known))) :
    registry.Listed (constants.entries.toList ++ known) := by
  have hfunction : Value.Valid registry [] (.function (.compiled routine)) := hready.registered
  have hmain := hextends.mem (hready.consistent.workspace.constants.boxed_box hfunction).mem
  have hgrown := (machine.constants.box_extends (.function (.compiled routine))).trans hextends
  refine hlisted.mono fun value hmem ↦ ?_
  rcases List.mem_cons.mp hmem with rfl | hrest
  · exact List.mem_append_left _ (Array.mem_toList_iff.mpr hmain)
  · rcases List.mem_append.mp hrest with hentry | hknown
    · exact List.mem_append_left _ (hgrown.toList_subset hentry)
    · exact List.mem_append_right _ hknown

end Machine.Ready

/-! ### Consistent engines -/

/-- What holds of an engine between two commands: its machine is consistent, and all compiled functions are
among the constants or were handed out. -/
def Engine.Consistent (engine : Engine) (known : List Value) (closures : List Closure) : Prop :=
  ∃ (registry : Registry) (world : World), engine.machine.Consistent known closures registry world ∧
    registry.Listed (engine.machine.constants.entries.toList ++ known)

namespace Engine

variable {engine next : Engine} {known : List Value} {closures : List Closure} {command : Command}

/-- The engine with a script compiled. -/
theorem prepared_eq {script : Script} (hscript : command.script? = some script) :
    engine.prepared command = (engine.compile script).2 := by
  rw [prepared, hscript]

/-- The functions of a script that is compiled. -/
theorem closures_eq {script : Script} (hscript : command.script? = some script) :
    engine.closures command = script.closures engine.machine.nextIdentity := by
  rw [Engine.closures, hscript]

/-- An engine accepts a script that the compiler accepts over its constants. -/
theorem compile_of_compileScript {script : Script} {main : Routine} {after : Workspace}
    (hcompiled : compileScript engine.strict script ⟨engine.machine.constants, engine.machine.nextIdentity⟩ =
      .ok main after) :
    engine.compile script = (.ok main, ⟨{ engine.machine with
      constants := after.constants
      nextIdentity := after.nextIdentity }, engine.strict⟩) := by
  unfold compile Machine.compileWith
  rw [hcompiled]

/-- An accepted script is the one that is run. -/
theorem main?_eq_some {script : Script} {main : Routine} (hmain : engine.main? script = some main) :
    (engine.compile script).1 = .ok main := by
  unfold main? at hmain
  cases hresult : (engine.compile script).1 with
  | ok found =>
    rw [hresult] at hmain
    exact congrArg Except.ok (Option.some.inj hmain)
  | error error =>
    rw [hresult] at hmain
    cases hmain

/-- A function that is listed has code that words can address. -/
theorem Addresses.size_lt (haddresses : engine.Addresses known command) {routine : Routine}
    {arguments : List Value} (hruns : engine.runs? command = some (routine, arguments)) {registry : Registry}
    (hlisted : registry.Listed (.function (.compiled routine) ::
      ((engine.prepared command).machine.constants.entries.toList ++ known)))
    (identity : Nat) (found : Routine) (hfound : registry.functions identity = some (.compiled found)) :
    found.unit.code.size < 4294967295 := by
  rcases List.mem_cons.mp (hlisted identity found hfound) with hsame | hmem
  · cases hsame
    exact haddresses.main routine arguments hruns
  · refine haddresses.code found ((List.mem_append.mp hmem).imp_left fun hentry ↦ ?_)
    exact Array.mem_toList_iff.mp hentry

end Engine

namespace Machine.Consistent

variable {engine : Engine} {known : List Value} {closures : List Closure} {registry : Registry} {world : World}

/-- An engine is consistent when a script is compiled for it, with the same world, and also when its host gets
to know the function of the script. -/
theorem compile (hmachine : engine.machine.Consistent known closures registry world)
    (hlisted : registry.Listed (engine.machine.constants.entries.toList ++ known)) (script : Script) :
    ∃ later : Registry, registry.GrowsBy later (script.closures engine.machine.nextIdentity) ∧
      (engine.compile script).2.machine.Consistent known
        (script.closures engine.machine.nextIdentity ++ closures) later world ∧
      later.Listed ((engine.compile script).2.machine.constants.entries.toList ++ known) ∧
      engine.machine.nextIdentity ≤ (engine.compile script).2.machine.nextIdentity ∧
      ∀ main : Routine, (engine.compile script).1 = .ok main →
        ∃ latest : Registry, registry.GrowsBy latest (script.closures engine.machine.nextIdentity) ∧
          (engine.compile script).2.machine.Consistent known
            (script.closures engine.machine.nextIdentity ++ closures) latest world ∧
          latest.functions main.identity = some (.compiled main) ∧
          latest.Listed (.function (.compiled main) ::
            ((engine.compile script).2.machine.constants.entries.toList ++ known)) := by
  obtain ⟨later, hregistered, hprepared, hextends, -, hnext, hnew, hmain⟩ :=
    hmachine.compileScript engine.strict script (Prod.eta _).symm
  have hlater : later.Listed ((engine.compile script).2.machine.constants.entries.toList ++ known) := by
    intro identity routine hroutine
    rcases hnew identity routine hroutine with hold | hmem
    · rcases List.mem_append.mp (hlisted identity routine hold) with hentry | hknown
      · exact List.mem_append_left _ (hextends.toList_subset hentry)
      · exact List.mem_append_right _ hknown
    · exact List.mem_append_left _ (Array.mem_toList_iff.mpr hmem)
  refine ⟨later, hregistered, hprepared, hlater, hnext, fun main hresult ↦ ?_⟩
  obtain ⟨hfree, hless, hlast, hcompiled⟩ := hmain main hresult
  refine ⟨Lowering.withFunction later (.compiled main),
    ⟨hregistered.trans (Lowering.extends_withFunction hfree), fun identity routine hroutine ↦ ?_⟩,
    hprepared.withMain hfree hless hcompiled, ?_, ?_⟩
  · unfold Lowering.withFunction at hroutine
    dsimp only at hroutine
    split_ifs at hroutine with hsame
    · rw [hsame]
      exact Or.inr hlast
    · exact hregistered.compiled identity routine hroutine
  · exact if_pos rfl
  · intro identity routine hroutine
    unfold Lowering.withFunction at hroutine
    dsimp only at hroutine
    split_ifs at hroutine with hsame
    · cases hroutine
      exact List.mem_cons_self
    · exact List.mem_cons_of_mem _ (hlater identity routine hroutine)

/-- The function of a script that is accepted has the last of the identities that the script takes up. -/
theorem accepted_main (hmachine : engine.machine.Consistent known closures registry world) {script : Script}
    {main : Routine} (hmain : engine.main? script = some main) :
    main.identity = engine.machine.nextIdentity + sitesOf script.body.nodes ∧
      (engine.compile script).2.machine.nextIdentity = engine.machine.nextIdentity + script.sites ∧
      main.unit.lastLine? = some (Lowering.endLine script.body script.body.line) := by
  have hresult : (engine.machine.compileWith (ScriptMachine.compileScript engine.strict script)).1 = .ok main :=
    Engine.main?_eq_some hmain
  exact hmachine.accepted engine.strict script (Prod.ext hresult rfl)

/-- Globals are bound to valid values. -/
theorem valid_lookup {machine : Machine} (hmachine : machine.Consistent known closures registry world) (name : String) :
    (machine.globals.lookup name).Valid registry world.store.records := by
  rw [hmachine.realizes.shows.globals]
  exact hmachine.world.globals name

/-- The host reads a valid value from a field. -/
theorem exists_getField {machine : Machine} (hmachine : machine.Consistent known closures registry world)
    {object : ObjectRef} (hobject : .object object ∈ known) (name : String) :
    ∃ value : Value, machine.getField object name = .ok value ∧ value.Valid registry world.store.records := by
  obtain ⟨value, hget, hread, -⟩ := hmachine.getField (hmachine.world.given _ hobject) name
  exact ⟨value, hget, hmachine.world.readField hread⟩

/-- A native function that the host calls leaves the machine consistent, and has a valid value if it has one. -/
theorem of_applyNative_ok {machine next : Machine} (hmachine : machine.Consistent known closures registry world)
    {operation : Native} {arguments : List Value} (harguments : ∀ value ∈ arguments, value.FromHost known)
    {value : Value} (happlied : Machine.applyNative operation .undefined arguments machine = .ok value next) :
    ∃ later : World, next.Consistent known closures registry later ∧ next.constants = machine.constants ∧
      value.Valid registry later.store.records := by
  rcases hmachine.applyNative operation (show Value.Valid registry world.store.records .undefined from trivial)
      fun value hvalue ↦ (harguments value hvalue).valid hmachine.world.given with
    ⟨found, machine, later, hfound, -, hlater⟩ | ⟨fault, machine, later, hfound, -⟩
  · obtain ⟨rfl, rfl⟩ := EStateM.Result.ok.inj (hfound.symm.trans happlied)
    exact ⟨later, hlater⟩
  · cases hfound.symm.trans happlied

/-- A native function that fails when the host calls it leaves the machine consistent, and not with a fault of broken
code. -/
theorem of_applyNative_error {machine next : Machine} (hmachine : machine.Consistent known closures registry world)
    {operation : Native} {arguments : List Value} (harguments : ∀ value ∈ arguments, value.FromHost known)
    {fault : Fault} (happlied : Machine.applyNative operation .undefined arguments machine = .error fault next) :
    ∃ later : World, next.Consistent known closures registry later ∧ next.constants = machine.constants ∧
      ¬ fault.Internal := by
  rcases hmachine.applyNative operation (show Value.Valid registry world.store.records .undefined from trivial)
      fun value hvalue ↦ (harguments value hvalue).valid hmachine.world.given with
    ⟨value, machine, later, hfound, -⟩ | ⟨found, machine, later, hfound, -, hlater⟩
  · cases hfound.symm.trans happlied
  · obtain ⟨rfl, rfl⟩ := EStateM.Result.error.inj (hfound.symm.trans happlied)
    exact ⟨later, hlater⟩

/-- A script that is accepted finds its machine ready, in the same world. -/
theorem ready_main (hmachine : engine.machine.Consistent known closures registry world)
    (hlisted : registry.Listed (engine.machine.constants.entries.toList ++ known)) {command : Command}
    {script : Script} (hscript : command.script? = some script) (haddresses : engine.Addresses known command)
    {main : Routine} (hmain : engine.main? script = some main)
    (hruns : engine.runs? command = some (main, [])) :
    ∃ later : Registry, registry.GrowsBy later (engine.closures command) ∧
      (engine.prepared command).machine.Ready known (engine.closures command ++ closures) later world main [] ∧
      later.Listed (.function (.compiled main) ::
        ((engine.prepared command).machine.constants.entries.toList ++ known)) := by
  obtain ⟨-, -, -, -, -, hknown⟩ := hmachine.compile hlisted script
  obtain ⟨latest, hregistered, hprepared, hfunction, hlatest⟩ := hknown main (Engine.main?_eq_some hmain)
  rw [← Engine.prepared_eq hscript, ← Engine.closures_eq hscript] at hprepared
  rw [← Engine.prepared_eq hscript] at hlatest
  rw [← Engine.closures_eq hscript] at hregistered
  exact ⟨latest, hregistered, ⟨hprepared,
    hprepared.rests (Nat.le_of_lt haddresses.constants) (haddresses.size_lt hruns hlatest), hfunction,
    by rintro _ ⟨⟩, Nat.le_trans (ConstantTable.size_box_le _ _) haddresses.constants⟩, hlatest⟩

/-- A compiled function that a global is bound to finds its machine ready for valid arguments. -/
theorem ready_call (hmachine : engine.machine.Consistent known closures registry world)
    (hlisted : registry.Listed (engine.machine.constants.entries.toList ++ known)) {name : String}
    {routine : Routine} {arguments : List Value}
    (haddresses : engine.Addresses known (.call name arguments))
    (hruns : engine.runs? (.call name arguments) = some (routine, arguments))
    (harguments : ∀ value ∈ arguments, value.Valid registry world.store.records) :
    engine.machine.Ready known closures registry world routine arguments := by
  have hregistered := hmachine.valid_lookup name
  rw [Engine.lookup_of_runs? hruns] at hregistered
  have hmore := hlisted.mono (List.subset_cons_self (Value.function (.compiled routine)) _)
  exact ⟨hmachine, hmachine.rests (Nat.le_of_lt haddresses.constants) (haddresses.size_lt hruns hmore),
    hregistered, harguments, Nat.le_trans (ConstantTable.size_box_le _ _) haddresses.constants⟩

end Machine.Consistent

namespace Engine

variable {engine next : Engine} {known : List Value} {closures : List Closure} {command : Command}

namespace Consistent

/-- A command that runs code finds its machine ready, in the world that the engine shows. -/
theorem ready (hconsistent : engine.Consistent known closures) (hadmissible : command.Admissible known)
    (haddresses : engine.Addresses known command) {routine : Routine} {arguments : List Value}
    (hruns : engine.runs? command = some (routine, arguments)) :
    ∃ (registry : Registry) (world : World), engine.machine.Shows world ∧
      (engine.prepared command).machine.Ready known (engine.closures command ++ closures) registry world
        routine arguments ∧
      registry.Listed (.function (.compiled routine) ::
        ((engine.prepared command).machine.constants.entries.toList ++ known)) := by
  obtain ⟨registry, world, hmachine, hlisted⟩ := hconsistent
  cases starts_of_runs? hruns with
  | eval hscript hmain =>
    obtain ⟨later, -, hready, hlater⟩ := hmachine.ready_main hlisted hscript haddresses hmain hruns
    exact ⟨later, world, hmachine.realizes.shows, hready, hlater⟩
  | call =>
    exact ⟨registry, world, hmachine.realizes.shows, hmachine.ready_call hlisted haddresses hruns
      fun value hvalue ↦ (hadmissible value hvalue).valid hmachine.world.given,
      hlisted.mono (List.subset_cons_self _ _)⟩

/-- An engine stays consistent when its machine stays so with the same constants and functions. -/
theorem of_machine {machine : Machine} {registry : Registry} {world : World}
    (hmachine : machine.Consistent known closures registry world)
    (hlisted : registry.Listed (machine.constants.entries.toList ++ known)) {given : List Value}
    (hgiven : ∀ value ∈ given, value.Valid registry world.store.records) (strict : Bool) :
    Engine.Consistent ⟨machine, strict⟩ (given ++ known) closures :=
  ⟨registry, world, hmachine.handOut hgiven, hlisted.handOut given⟩

end Consistent

/-! ### Commands that run code -/

/-- Compiling leaves the stack of an engine as it is. -/
theorem prepared_stack : (engine.prepared command).machine.stack = engine.machine.stack := by
  unfold prepared
  cases command.script? with
  | none => rfl
  | some script =>
    unfold Engine.compile Machine.compileWith
    dsimp only
    cases compileScript engine.strict script ⟨engine.machine.constants, engine.machine.nextIdentity⟩ <;> rfl

/-- A command that stays small begins with no activity that crowds the stack. -/
theorem StaysSmall.not_crowds (hsmall : engine.StaysSmall command) {routine : Routine} {arguments : List Value}
    (hruns : engine.runs? command = some (routine, arguments))
    (hlarge : 4294967296 < (engine.prepared command).machine.stack.limit) (start : Activity)
    (henters : (engine.prepared command).machine.Enters routine .undefined arguments start) :
    ¬ start.Crowds := by
  rintro ⟨reached, hreaches, hlong⟩
  rw [prepared_stack] at hlarge
  exact absurd hlong (Nat.not_lt_of_le
    (hsmall hlarge reached ⟨start, ⟨routine, arguments, hruns, henters⟩, hreaches⟩))

/-- A script that is accepted leads to its function. -/
theorem compile_eq_of_main? {script : Script} {main : Routine} (hmain : engine.main? script = some main) :
    engine.compile script = (.ok main, (engine.compile script).2) :=
  Prod.ext (main?_eq_some hmain) rfl

/-- The answer to a command that runs code is that of the call. -/
theorem perform_of_runs? {routine : Routine} {arguments : List Value}
    (hruns : engine.runs? command = some (routine, arguments)) (steps : Nat) :
    engine.perform steps command =
      ((engine.prepared command).machine.invokeRoutine steps routine .undefined arguments).map
        fun outcome ↦ Answer.ofOutcome (ofCall engine.strict outcome) := by
  cases starts_of_runs? hruns with
  | eval hscript hmain hperform =>
    rw [hperform, prepared_eq hscript, eval, compile_eq_of_main? hmain]
    exact Option.map_map _ _ _
  | call hglobal =>
    rw [perform, call, Machine.callGlobal, hglobal]
    exact Option.map_map _ _ _

namespace Consistent

/-- An engine is consistent after a command that runs code, which reports no fault of broken code. -/
theorem perform_of_runs? (hconsistent : engine.Consistent known closures)
    (hadmissible : command.Admissible known) (haddresses : engine.Addresses known command)
    (hsmall : engine.StaysSmall command) {routine : Routine} {arguments : List Value}
    (hruns : engine.runs? command = some (routine, arguments)) {steps : Nat} {answer : Answer}
    (hperformed : engine.perform steps command = some (answer, next)) :
    next.Consistent (answer.given ++ known) (engine.closures command ++ closures) ∧
      ∀ fault ∈ answer.fault?, ¬ fault.Internal := by
  obtain ⟨registry, world, -, hready, hlisted⟩ := hconsistent.ready hadmissible haddresses hruns
  rw [Engine.perform_of_runs? hruns] at hperformed
  obtain ⟨outcome, hinvoked, hanswer⟩ := Option.map_eq_some_iff.mp hperformed
  obtain ⟨later, hmachine, hextends, hvalue, hinternal⟩ :=
    hready.of_invokeRoutine (hsmall.not_crowds hruns) hinvoked
  have hlistedLater := hready.listed hextends hlisted
  obtain ⟨located | value, machine⟩ := outcome
  · obtain ⟨rfl, rfl⟩ := Prod.mk.inj hanswer
    refine ⟨of_machine hmachine hlistedLater (List.forall_mem_nil _) _, fun fault hfault ↦ ?_⟩
    obtain rfl := Option.some.inj hfault
    exact hinternal located rfl
  · obtain ⟨rfl, rfl⟩ := Prod.mk.inj hanswer
    refine ⟨of_machine hmachine hlistedLater (fun found hfound ↦ ?_) _, by rintro _ ⟨⟩⟩
    rw [List.mem_singleton.mp hfound]
    exact hvalue value rfl

end Consistent

/-! ### Other commands -/

namespace Consistent

/-- An engine is consistent after it has compiled a script. -/
theorem of_compile (hconsistent : engine.Consistent known closures) (script : Script) :
    (engine.compile script).2.Consistent known (script.closures engine.machine.nextIdentity ++ closures) := by
  obtain ⟨registry, world, hmachine, hlisted⟩ := hconsistent
  obtain ⟨later, -, hprepared, hlater, -⟩ := hmachine.compile hlisted script
  exact ⟨later, world, hprepared, hlater⟩

/-- An engine is consistent after it has handed the function of a script out. -/
theorem of_accepted (hconsistent : engine.Consistent known closures) {script : Script} {main : Routine}
    (haccepted : (engine.compile script).1 = .ok main) :
    (engine.compile script).2.Consistent ([.function (.compiled main)] ++ known)
      (script.closures engine.machine.nextIdentity ++ closures) := by
  obtain ⟨registry, world, hmachine, hlisted⟩ := hconsistent
  obtain ⟨-, -, -, -, -, hknown⟩ := hmachine.compile hlisted script
  obtain ⟨later, -, hlater, hregistered, hlistedLater⟩ := hknown main haccepted
  exact ⟨later, world, hlater.handOut (List.forall_mem_singleton.mpr hregistered), hlistedLater.handOut_main⟩

/-- An engine is consistent after a command that runs no code, and its answer reports no fault of broken code. -/
theorem of_replies (hconsistent : engine.Consistent known closures) (hadmissible : command.Admissible known)
    {answer : Answer} (hreplies : engine.Replies command answer next) :
    next.Consistent (answer.given ++ known) (engine.closures command ++ closures) ∧
      ∀ fault ∈ answer.fault?, ¬ fault.Internal := by
  cases hreplies with
  | @refused command script error hscript =>
    rw [closures_eq hscript]
    exact ⟨hconsistent.of_compile script, by rintro _ ⟨⟩⟩
  | unreadable hscript =>
    rw [Engine.closures, Command.script?, hscript]
    exact ⟨hconsistent, by rintro _ ⟨⟩⟩
  | compiled haccepted => exact ⟨hconsistent.of_accepted haccepted, by rintro _ ⟨⟩⟩
  | @dumped script => exact ⟨hconsistent.of_compile script, by rintro _ ⟨⟩⟩
  | returned hglobal happlied =>
    obtain ⟨registry, world, hmachine, hlisted⟩ := hconsistent
    obtain ⟨later, hlater, hconstants, hvalue⟩ := hmachine.of_applyNative_ok hadmissible happlied
    rw [← hconstants] at hlisted
    exact ⟨of_machine hlater hlisted (List.forall_mem_singleton.mpr hvalue) _, by rintro _ ⟨⟩⟩
  | failed hglobal happlied =>
    obtain ⟨registry, world, hmachine, hlisted⟩ := hconsistent
    obtain ⟨later, hlater, hconstants, hinternal⟩ := hmachine.of_applyNative_error hadmissible happlied
    rw [← hconstants] at hlisted
    refine ⟨of_machine hlater hlisted (List.forall_mem_nil _) _, fun found hfound ↦ ?_⟩
    obtain rfl := Option.some.inj hfound
    exact hinternal
  | notFunction =>
    refine ⟨hconsistent, fun found hfound ↦ ?_⟩
    obtain rfl := Option.some.inj hfound
    simp [LocatedFault.atEntry, Fault.Internal]
  | @read object name value hfield =>
    obtain ⟨registry, world, hmachine, hlisted⟩ := hconsistent
    obtain ⟨found, hfound, hvalid⟩ := hmachine.exists_getField hadmissible name
    obtain rfl := Except.ok.inj (hfound.symm.trans hfield)
    exact ⟨of_machine hmachine hlisted (List.forall_mem_singleton.mpr hvalid) _, by rintro _ ⟨⟩⟩
  | @unread object name fault hfield =>
    obtain ⟨registry, world, hmachine, -⟩ := hconsistent
    obtain ⟨found, hfound, -⟩ := hmachine.exists_getField hadmissible name
    cases hfound.symm.trans hfield
  | register name value =>
    obtain ⟨registry, world, hmachine, hlisted⟩ := hconsistent
    have hvalue := Value.FromHost.valid hmachine.world.given hadmissible
    exact ⟨of_machine (hmachine.register name hvalue) hlisted (List.forall_mem_nil _) _, by rintro _ ⟨⟩⟩
  | lookup name =>
    obtain ⟨registry, world, hmachine, hlisted⟩ := hconsistent
    exact ⟨of_machine hmachine hlisted (List.forall_mem_singleton.mpr (hmachine.valid_lookup name)) _,
      by rintro _ ⟨⟩⟩
  | newClass fields =>
    obtain ⟨registry, world, hmachine, hlisted⟩ := hconsistent
    refine ⟨of_machine (hmachine.newClass fields) (fun identity routine hroutine ↦ hlisted identity routine hroutine)
      (List.forall_mem_singleton.mpr ?_) _, by rintro _ ⟨⟩⟩
    exact if_pos rfl
  | newHostFunction name behaviour =>
    obtain ⟨registry, world, hmachine, hlisted⟩ := hconsistent
    refine ⟨of_machine (hmachine.newHostFunction name hadmissible)
      (fun identity routine hroutine ↦ hlisted identity routine (Registry.functions_of_withNative hroutine))
      (List.forall_mem_singleton.mpr ?_) _, by rintro _ ⟨⟩⟩
    exact if_pos rfl
  | takePrinted =>
    obtain ⟨registry, world, hmachine, hlisted⟩ := hconsistent
    exact ⟨of_machine (hmachine.withSink { engine.machine.sink with written := "" }) hlisted (List.forall_mem_nil _) _,
      by rintro _ ⟨⟩⟩

/-- An engine is consistent after any command, and its answer reports no fault of broken code. -/
theorem perform (hconsistent : engine.Consistent known closures) (hadmissible : command.Admissible known)
    (haddresses : engine.Addresses known command) (hsmall : engine.StaysSmall command) {steps : Nat}
    {answer : Answer} (hperformed : engine.perform steps command = some (answer, next)) :
    next.Consistent (answer.given ++ known) (engine.closures command ++ closures) ∧
      ∀ fault ∈ answer.fault?, ¬ fault.Internal := by
  cases hruns : engine.runs? command with
  | some run =>
    obtain ⟨routine, arguments⟩ := run
    exact hconsistent.perform_of_runs? hadmissible haddresses hsmall hruns hperformed
  | none => exact hconsistent.of_replies hadmissible (replies_of_perform hruns hperformed)

end Consistent

end Engine

/-- Every engine of a session is consistent. -/
theorem Session.consistent {engine : Engine} {known : List Value} {closures : List Closure}
    (hsession : Session engine known closures) : engine.Consistent known closures := by
  induction hsession with
  | standard limits sink strict =>
    obtain ⟨registry, world, hmachine, hlisted⟩ := Machine.consistent_standard limits sink
    exact ⟨registry, world, hmachine, hlisted.mono (List.nil_subset _)⟩
  | bare limits sink strict =>
    obtain ⟨registry, world, hmachine, hlisted⟩ := Machine.consistent_bare limits sink
    exact ⟨registry, world, hmachine, hlisted.mono (List.nil_subset _)⟩
  | step _ hadmissible haddresses hsmall hperformed ih =>
    exact (ih.perform hadmissible haddresses hsmall hperformed).1

end ScriptMachine
