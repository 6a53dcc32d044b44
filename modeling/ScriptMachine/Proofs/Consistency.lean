import ScriptMachine.Proofs.Identities
import ScriptMachine.Proofs.LoweringSound
import ScriptMachine.Proofs.SafeLowering
import ScriptMachine.Proofs.Sessions
import ScriptMachine.Proofs.SimulationCalls

/-!
# Machines between commands

`Machine.Consistent` is what holds of a machine between two commands: it shows a valid world with an empty
stack, every identity that belongs to something has been given away, and every compiled function is the code
of one of the functions that were compiled so far. A fresh machine is consistent, and so is every machine
after a compilation (`Machine.Consistent.compileScript`), after a call of a native function and after
whatever the host adds. A consistent machine whose constants and code words can number is at rest
(`Machine.Consistent.rests`), so that its functions can be called.
-/

set_option autoImplicit false
set_option relaxedAutoImplicit false

namespace ScriptMachine

/-! ### More functions, classes and known values -/

namespace World.Valid

variable {world : World} {registry : Registry} {known : List Value}

/-- A world stays valid when functions and classes are added. -/
theorem mono (hvalid : world.Valid registry known) {larger : Registry} (hregistry : registry.Extends larger) :
    world.Valid larger known := by
  have hstays : ∀ {value : Value}, value.Valid registry world.store.records →
      value.Valid larger world.store.records :=
    fun hvalue ↦ hvalue.mono hregistry (Store.KeepsLayouts.refl _)
  exact ⟨fun name ↦ hstays (hvalid.globals name),
    fun record hrecord ↦ hregistry.layouts _ _ (hvalid.layouts record hrecord), hvalid.shaped,
    fun record hrecord value hvalue ↦ hstays (hvalid.fields record hrecord value hvalue),
    fun value hvalue ↦ hstays (hvalid.given value hvalue), hvalid.hosts, hvalid.capacity⟩

/-- A world stays valid when valid values are handed out. -/
theorem handOut (hvalid : world.Valid registry known) {given : List Value}
    (hgiven : ∀ value ∈ given, value.Valid registry world.store.records) :
    world.Valid registry (given ++ known) := by
  refine ⟨hvalid.globals, hvalid.layouts, hvalid.shaped, hvalid.fields, fun value hvalue ↦ ?_,
    fun behaviour hbehaviour ↦ (hvalid.hosts behaviour hbehaviour).mono (List.subset_append_right _ _),
    hvalid.capacity⟩
  rcases List.mem_append.mp hvalue with hnew | hold
  · exact hgiven value hnew
  · exact hvalid.given value hold

end World.Valid

/-- An identity that is still to come belongs to nothing. -/
theorem Workspace.Valid.fresh {workspace : Workspace} {registry : Registry}
    (hvalid : workspace.Valid registry) :
    registry.functions workspace.nextIdentity = none ∧ registry.layouts workspace.nextIdentity = none := by
  constructor
  · cases hfound : registry.functions workspace.nextIdentity with
    | none => rfl
    | some callee => exact absurd (hvalid.functions _ callee hfound) (Nat.lt_irrefl _)
  · cases hfound : registry.layouts workspace.nextIdentity with
    | none => rfl
    | some layout => exact absurd (hvalid.layouts _ layout hfound) (Nat.lt_irrefl _)

/-! ### Consistent machines -/

/-- A routine is the code of the function with an identity, as long as words can number all constants. -/
def Routine.CompiledFrom (routine : Routine) (closures : List Closure) (constants : ConstantTable)
    (identity : Nat) : Prop :=
  ∃ closure : Closure, closures.find? (fun other ↦ other.identity == identity) = some closure ∧
      ∀ final : ConstantTable, constants.Extends final → final.size ≤ Word.indexLimit →
        closure.Compiled final routine

/-- What holds of a machine between two commands. -/
structure Machine.Consistent (machine : Machine) (known : List Value) (closures : List Closure)
    (registry : Registry) (world : World) : Prop where
  realizes : machine.Realizes world machine.constants machine.stack.limit [] 0
  world : world.Valid registry known
  workspace : Workspace.Valid ⟨machine.constants, machine.nextIdentity⟩ registry
  compiled : ∀ (identity : Nat) (routine : Routine),
    registry.functions identity = some (.compiled routine) →
      routine.CompiledFrom closures machine.constants identity

/-- Every compiled function is among some values. -/
def Registry.Listed (registry : Registry) (values : List Value) : Prop :=
  ∀ (identity : Nat) (routine : Routine),
    registry.functions identity = some (.compiled routine) → .function (.compiled routine) ∈ values

/-- A registry has grown, and every new compiled function has the identity of one of some function literals. -/
structure Registry.GrowsBy (registry later : Registry) (closures : List Closure) : Prop
    extends registry.Extends later where
  compiled : ∀ (identity : Nat) (routine : Routine), later.functions identity = some (.compiled routine) →
    registry.functions identity = some (.compiled routine) ∨ ∃ closure ∈ closures, closure.identity = identity

/-- Nothing has been added to a registry. -/
theorem Registry.GrowsBy.refl (registry : Registry) (closures : List Closure) : registry.GrowsBy registry closures :=
  ⟨.refl registry, fun _ _ hroutine ↦ Or.inl hroutine⟩

/-- A registry knows no other compiled functions when it knows a native one more. -/
theorem Registry.functions_of_withNative {registry : Registry} {identity other : Nat} {name : String}
    {operation : Native} {routine : Routine}
    (hroutine : (Lowering.withFunction registry (.native identity name operation)).functions other =
      some (.compiled routine)) : registry.functions other = some (.compiled routine) := by
  unfold Lowering.withFunction at hroutine
  dsimp only at hroutine
  split_ifs at hroutine
  · cases hroutine
  · exact hroutine

namespace Machine.Consistent

variable {machine : Machine} {known : List Value} {closures : List Closure} {registry : Registry}
  {world : World}

/-- A consistent machine is at rest when words can number its constants and its code. -/
theorem rests (hconsistent : machine.Consistent known closures registry world)
    (hconstants : machine.constants.size ≤ Word.indexLimit)
    (hcode : ∀ (identity : Nat) (routine : Routine),
      registry.functions identity = some (.compiled routine) → routine.unit.code.size < 4294967295) :
    machine.Rests registry known machine.stack.limit [] 0 world machine.constants := by
  refine ⟨hconsistent.realizes, hconsistent.world, hconsistent.workspace.constants,
    fun identity routine hroutine ↦ ?_⟩
  obtain ⟨closure, -, hcompiled⟩ := hconsistent.compiled identity routine hroutine
  exact (hcompiled _ (ConstantTable.Extends.refl _) hconstants).verified
    hconsistent.workspace.constants.undefined (hcode identity routine hroutine)

/-- The functions of a consistent machine make up a program. -/
theorem knows (hconsistent : machine.Consistent known closures registry world)
    (hconstants : machine.constants.size ≤ Word.indexLimit) :
    Program.Knows ⟨closures, machine.constants⟩ registry := by
  refine ⟨hconsistent.workspace.constants, fun identity routine hroutine ↦ ?_⟩
  obtain ⟨closure, hfound, hcompiled⟩ := hconsistent.compiled identity routine hroutine
  exact ⟨closure, hfound, hcompiled _ (ConstantTable.Extends.refl _) hconstants⟩

/-! ### Compilations -/

/-- A machine stays consistent when something is compiled over its constants and identities: new functions
come with their code, and old ones keep theirs. -/
theorem grow (hconsistent : machine.Consistent known closures registry world) {workspace : Workspace}
    {later : Registry} {added new : List Closure}
    (hgrows : Workspace.Grows ⟨machine.constants, machine.nextIdentity⟩ workspace registry later new)
    (hnew : new ⊆ added) {count : Nat} (hadded : Closure.Numbered machine.nextIdentity count added) :
    Machine.Consistent
      { machine with constants := workspace.constants, nextIdentity := workspace.nextIdentity }
      known (added ++ closures) later world := by
  have hheap : machine.heap.Holds workspace.constants world.store :=
    hconsistent.realizes.shows.heap.mono hgrows.constants
  refine ⟨⟨⟨hconsistent.realizes.shows.globals, hconsistent.realizes.shows.sink,
    hconsistent.realizes.shows.hosts, hheap⟩, rfl, hconsistent.realizes.fits, hconsistent.realizes.contents,
    hconsistent.realizes.base, rfl⟩, hconsistent.world.mono hgrows.registered, hgrows.valid,
    fun identity routine hroutine ↦ ?_⟩
  rcases hgrows.compiled identity routine hroutine with hold | ⟨-, closure, hclosure, hidentity, hcompiled⟩
  · obtain ⟨closure, hfound, hcompiled⟩ := hconsistent.compiled identity routine hold
    refine ⟨closure, ?_, fun final hextends hsize ↦
      hcompiled final (hgrows.constants.trans hextends) hsize⟩
    rw [List.find?_append, hadded.find?_eq_none (hconsistent.workspace.functions identity _ hold)]
    exact hfound
  · refine ⟨closure, ?_, hcompiled⟩
    rw [List.find?_append, hadded.find?_eq (hnew hclosure) hidentity]
    rfl

/-- A machine stays consistent when a script is compiled for it. The function of an accepted script is known
to nobody yet. -/
theorem compileScript (hconsistent : machine.Consistent known closures registry world) (strict : Bool)
    (script : Script) {result : Except CompileError Routine} {prepared : Machine}
    (hresult : machine.compileWith (ScriptMachine.compileScript strict script) = (result, prepared)) :
    ∃ later : Registry, registry.GrowsBy later (script.closures machine.nextIdentity) ∧
      prepared.Consistent known (script.closures machine.nextIdentity ++ closures) later world ∧
      machine.constants.Extends prepared.constants ∧
      prepared.stack.limit = machine.stack.limit ∧ machine.nextIdentity ≤ prepared.nextIdentity ∧
      (∀ (identity : Nat) (routine : Routine), later.functions identity = some (.compiled routine) →
        registry.functions identity = some (.compiled routine) ∨
          .function (.compiled routine) ∈ prepared.constants.entries) ∧
      ∀ main : Routine, result = .ok main →
        later.functions main.identity = none ∧ main.identity < prepared.nextIdentity ∧
          (∃ closure ∈ script.closures machine.nextIdentity, closure.identity = main.identity) ∧
          main.CompiledFrom (script.closures machine.nextIdentity ++ closures) prepared.constants
            main.identity := by
  have hmeets := meets_compileScript strict script hconsistent.workspace
  have hnumbered := script.numbered_closures machine.nextIdentity
  have hgrowsBy : ∀ {workspace : Workspace} {later : Registry}, Workspace.Grows
      ⟨machine.constants, machine.nextIdentity⟩ workspace registry later
        (closuresOf machine.nextIdentity script.body.nodes) →
      registry.GrowsBy later (script.closures machine.nextIdentity) :=
    fun hgrows ↦ ⟨hgrows.registered, fun identity routine hroutine ↦
      (hgrows.compiled identity routine hroutine).imp_right fun ⟨_, closure, hclosure, hidentity, _⟩ ↦
        ⟨closure, List.mem_append_left _ hclosure, hidentity⟩⟩
  unfold Lowering.Meets at hmeets
  unfold Machine.compileWith at hresult
  cases hcompiled : ScriptMachine.compileScript strict script ⟨machine.constants, machine.nextIdentity⟩ with
  | ok main workspace =>
    rw [hcompiled] at hmeets hresult
    obtain ⟨later, hgrows, hidentity, hnext, hfree, -, hcode⟩ := hmeets
    obtain ⟨rfl, rfl⟩ := Prod.mk.inj hresult
    refine ⟨later, hgrowsBy hgrows, hconsistent.grow hgrows (List.subset_append_left _ _) hnumbered,
      hgrows.constants, rfl, hgrows.next_le, fun identity routine hroutine ↦ ?_, fun found hfound ↦ ?_⟩
    · exact (hgrows.compiled identity routine hroutine).imp_right And.left
    · obtain rfl := Except.ok.inj hfound
      refine ⟨hfree, hnext ▸ Nat.lt_succ_self _,
        ⟨_, List.mem_append_right _ (List.mem_singleton.mpr rfl), hidentity.symm⟩,
        Closure.ofBody machine.nextIdentity "main" [] script.body, ?_, hcode⟩
      rw [List.find?_append, hnumbered.find?_eq (List.mem_append_right _ (List.mem_singleton.mpr rfl))
        hidentity.symm]
      rfl
  | error error workspace =>
    rw [hcompiled] at hmeets hresult
    obtain ⟨later, hgrows⟩ := hmeets
    obtain ⟨rfl, rfl⟩ := Prod.mk.inj hresult
    refine ⟨later, hgrowsBy hgrows, hconsistent.grow hgrows (List.subset_append_left _ _) hnumbered,
      hgrows.constants, rfl, hgrows.next_le, fun identity routine hroutine ↦ ?_, fun main hmain ↦ nomatch hmain⟩
    exact (hgrows.compiled identity routine hroutine).imp_right And.left

/-- The function of a script that is accepted has the last of the identities that the script takes up. -/
theorem accepted (hconsistent : machine.Consistent known closures registry world) (strict : Bool) (script : Script)
    {main : Routine} {prepared : Machine}
    (hresult : machine.compileWith (ScriptMachine.compileScript strict script) = (.ok main, prepared)) :
    main.identity = machine.nextIdentity + sitesOf script.body.nodes ∧
      prepared.nextIdentity = machine.nextIdentity + script.sites ∧
      main.unit.lastLine? = some (Lowering.endLine script.body script.body.line) := by
  have hmeets := meets_compileScript strict script hconsistent.workspace
  unfold Lowering.Meets at hmeets
  unfold Machine.compileWith at hresult
  cases hcompiled : ScriptMachine.compileScript strict script ⟨machine.constants, machine.nextIdentity⟩ with
  | ok routine workspace =>
    rw [hcompiled] at hmeets hresult
    cases hresult
    obtain ⟨-, -, hidentity, hnext, -, hline, -⟩ := hmeets
    refine ⟨hidentity, ?_, hline⟩
    rw [hnext, hidentity]
    rfl
  | error error workspace =>
    rw [hcompiled] at hresult
    cases hresult

/-- A machine stays consistent when a compiled function becomes known whose code is there already. -/
theorem withMain (hconsistent : machine.Consistent known closures registry world) {main : Routine}
    (hfree : registry.functions main.identity = none) (hless : main.identity < machine.nextIdentity)
    (hcompiled : main.CompiledFrom closures machine.constants main.identity) :
    machine.Consistent known closures (Lowering.withFunction registry (.compiled main)) world := by
  have hextends : registry.Extends (Lowering.withFunction registry (.compiled main)) :=
    Lowering.extends_withFunction hfree
  refine ⟨hconsistent.realizes, hconsistent.world.mono hextends,
    ⟨hconsistent.workspace.constants.mono hextends, fun identity callee hcallee ↦ ?_,
      hconsistent.workspace.layouts⟩, fun identity routine hroutine ↦ ?_⟩
  · unfold Lowering.withFunction at hcallee
    dsimp only at hcallee
    split_ifs at hcallee with hsame
    · rw [hsame]
      exact hless
    · exact hconsistent.workspace.functions identity callee hcallee
  · unfold Lowering.withFunction at hroutine
    dsimp only at hroutine
    split_ifs at hroutine with hsame
    · cases hroutine
      rw [hsame]
      exact hcompiled
    · exact hconsistent.compiled identity routine hroutine

/-! ### Additions by the host -/

/-- A machine stays consistent when valid values are handed out. -/
theorem handOut (hconsistent : machine.Consistent known closures registry world) {given : List Value}
    (hgiven : ∀ value ∈ given, value.Valid registry world.store.records) :
    machine.Consistent (given ++ known) closures registry world :=
  ⟨hconsistent.realizes, hconsistent.world.handOut hgiven, hconsistent.workspace, hconsistent.compiled⟩

/-- A machine stays consistent when a global is bound to a valid value. -/
theorem register (hconsistent : machine.Consistent known closures registry world) (name : String)
    {value : Value} (hvalue : value.Valid registry world.store.records) :
    (machine.register name value).Consistent known closures registry (world.register name value) := by
  have hshows := hconsistent.realizes.shows
  refine ⟨⟨⟨?_, hshows.sink, hshows.hosts, hshows.heap⟩, rfl, hconsistent.realizes.fits,
    hconsistent.realizes.contents, hconsistent.realizes.base, rfl⟩, hconsistent.world.register name hvalue,
    hconsistent.workspace, hconsistent.compiled⟩
  rw [Machine.register, World.register, hshows.globals]

/-- A machine stays consistent when its sink changes. -/
theorem withSink (hconsistent : machine.Consistent known closures registry world) (sink : Sink) :
    Machine.Consistent { machine with sink := sink } known closures registry { world with sink := sink } := by
  have hshows := hconsistent.realizes.shows
  exact ⟨⟨⟨hshows.globals, rfl, hshows.hosts, hshows.heap⟩, rfl, hconsistent.realizes.fits,
    hconsistent.realizes.contents, hconsistent.realizes.base, rfl⟩, hconsistent.world.withSink sink,
    hconsistent.workspace, hconsistent.compiled⟩

/-- A machine stays consistent when its host makes a class. -/
theorem newClass (hconsistent : machine.Consistent known closures registry world) (fields : List String) :
    (machine.newClass fields).2.Consistent known closures
      (Lowering.withLayout registry (machine.newClass fields).1) world := by
  have hshows := hconsistent.realizes.shows
  have hextends : registry.Extends (Lowering.withLayout registry (machine.newClass fields).1) :=
    Lowering.extends_withLayout hconsistent.workspace.fresh.2
  refine ⟨⟨⟨hshows.globals, hshows.sink, hshows.hosts, hshows.heap⟩, rfl, hconsistent.realizes.fits,
    hconsistent.realizes.contents, hconsistent.realizes.base, rfl⟩, hconsistent.world.mono hextends,
    ⟨hconsistent.workspace.constants.mono hextends, fun identity callee hcallee ↦
      Nat.lt_succ_of_lt (hconsistent.workspace.functions identity callee hcallee),
      fun identity layout hlayout ↦ ?_⟩, hconsistent.compiled⟩
  unfold Lowering.withLayout at hlayout
  dsimp only at hlayout
  split_ifs at hlayout with hsame
  · rw [hsame]
    exact Nat.lt_succ_self _
  · exact Nat.lt_succ_of_lt (hconsistent.workspace.layouts identity layout hlayout)

/-- A machine stays consistent when its host installs a polite function. -/
theorem newHostFunction (hconsistent : machine.Consistent known closures registry world) (name : String)
    {behaviour : HostFunction} (hpolite : HostFunction.Polite known behaviour) :
    (machine.newHostFunction name behaviour).2.Consistent known closures
      (Lowering.withFunction registry (machine.newHostFunction name behaviour).1)
      { world with hosts := world.hosts.push behaviour } := by
  have hshows := hconsistent.realizes.shows
  have hextends : registry.Extends
      (Lowering.withFunction registry (machine.newHostFunction name behaviour).1) :=
    Lowering.extends_withFunction hconsistent.workspace.fresh.1
  have hworld := hconsistent.world.mono hextends
  refine ⟨⟨⟨hshows.globals, hshows.sink, ?_, hshows.heap⟩, rfl, hconsistent.realizes.fits,
    hconsistent.realizes.contents, hconsistent.realizes.base, rfl⟩,
    ⟨hworld.globals, hworld.layouts, hworld.shaped, hworld.fields, hworld.given, fun found hfound ↦ ?_,
      hworld.capacity⟩,
    ⟨hconsistent.workspace.constants.mono hextends, fun identity callee hcallee ↦ ?_,
      fun identity layout hlayout ↦
        Nat.lt_succ_of_lt (hconsistent.workspace.layouts identity layout hlayout)⟩,
    fun identity routine hroutine ↦ ?_⟩
  · show machine.hosts.push behaviour = world.hosts.push behaviour
    rw [hshows.hosts]
  · rcases Array.mem_push.mp hfound with hold | rfl
    · exact hworld.hosts found hold
    · exact hpolite
  · unfold Lowering.withFunction at hcallee
    dsimp only at hcallee
    split_ifs at hcallee with hsame
    · rw [hsame]
      exact Nat.lt_succ_self _
    · exact Nat.lt_succ_of_lt (hconsistent.workspace.functions identity callee hcallee)
  · exact hconsistent.compiled identity routine (Registry.functions_of_withNative hroutine)

/-! ### Reading fields -/

/-- The field of an object that was handed out is read like in the world, and lies among the used words of
the heap. -/
theorem getField (hconsistent : machine.Consistent known closures registry world) {object : ObjectRef}
    (hobject : Value.Valid registry world.store.records (.object object)) (name : String) :
    ∃ value : Value, machine.getField object name = .ok value ∧
      world.readField (.object object) name = .ok value ∧
      ∀ slot : Nat, object.layout.slotOf? name = some slot →
        object.index.toNat + Heap.headerSize + slot < machine.heap.used := by
  have hheap := hconsistent.realizes.shows.heap
  obtain ⟨record, hrecord, hlayout⟩ := Option.map_eq_some_iff.mp hobject
  unfold Machine.getField World.readField
  dsimp only
  rw [hrecord]
  dsimp only
  rw [← hlayout]
  cases hslot : record.layout.slotOf? name with
  | none => exact ⟨.undefined, rfl, rfl, by rintro _ ⟨⟩⟩
  | some slot =>
    have hinside := hconsistent.world.shaped.slot_lt hrecord hslot
    have hfield : record.fields[slot]? = some (record.fields.getD slot .undefined) := by
      rw [List.getD_eq_getElem?_getD, List.getElem?_eq_getElem hinside]
      rfl
    refine ⟨record.fields.getD slot .undefined, hheap.decode (hheap.field hrecord hfield), rfl,
      fun other hother ↦ ?_⟩
    obtain rfl := Option.some.inj hother
    exact hheap.field_lt hrecord hinside

/-! ### Native functions -/

/-- A native function does to a machine what it does to the world, and leaves it consistent. -/
theorem applyNative (hconsistent : machine.Consistent known closures registry world) (operation : Native)
    {receiver : Value} {arguments : List Value} (hreceiver : receiver.Valid registry world.store.records)
    (harguments : ∀ value ∈ arguments, value.Valid registry world.store.records) :
    (∃ (value : Value) (next : Machine) (later : World),
        Machine.applyNative operation receiver arguments machine = .ok value next ∧
        World.applyNative operation receiver arguments world = .ok value later ∧
        next.Consistent known closures registry later ∧ next.constants = machine.constants ∧
        value.Valid registry later.store.records) ∨
      ∃ (fault : Fault) (next : Machine) (later : World),
        Machine.applyNative operation receiver arguments machine = .error fault next ∧
        World.applyNative operation receiver arguments world = .error fault later ∧
        next.Consistent known closures registry later ∧ next.constants = machine.constants ∧
        ¬ fault.Internal := by
  have hvalid := hconsistent.world.applyNative operation hreceiver harguments
  have hsink : machine.sink = world.sink := hconsistent.realizes.shows.sink
  have hhosts : machine.hosts = world.hosts := hconsistent.realizes.shows.hosts
  unfold World.applyNative at hvalid ⊢
  unfold Machine.applyNative
  cases operation with
  | builtin builtin =>
    dsimp only at hvalid ⊢
    unfold Machine.onSink
    dsimp only
    rw [hsink]
    cases hresult : builtin.apply arguments world.sink with
    | ok value sink =>
      rw [hresult] at hvalid
      exact Or.inl ⟨value, _, _, rfl, rfl, hconsistent.withSink sink, rfl, hvalid.2.2⟩
    | error fault sink =>
      rw [hresult] at hvalid
      exact Or.inr ⟨fault, _, _, rfl, rfl, hconsistent.withSink sink, rfl, hvalid.2.2⟩
  | host position =>
    dsimp only at hvalid ⊢
    rw [hhosts]
    cases hposition : world.hosts[position]? with
    | none => exact Or.inl ⟨.undefined, machine, world, rfl, rfl, hconsistent, rfl, trivial⟩
    | some behaviour =>
      rw [hposition] at hvalid
      dsimp only at hvalid ⊢
      cases hresult : behaviour receiver arguments with
      | ok value =>
        rw [hresult] at hvalid
        exact Or.inl ⟨value, machine, world, rfl, rfl, hconsistent, rfl, hvalid.2.2⟩
      | error fault =>
        rw [hresult] at hvalid
        exact Or.inr ⟨fault, machine, world, rfl, rfl, hconsistent, rfl, hvalid.2.2⟩

end Machine.Consistent

/-! ### Fresh machines -/

/-- No name is bound in empty globals. -/
theorem Globals.lookup_empty (name : String) : empty.lookup name = .undefined := by
  simp [empty, lookup]

namespace Machine

/-- The builtin functions by their identities. -/
def builtinRegistry : Registry where
  functions identity := (builtinFunctions 0 Builtin.all)[identity]?
  layouts _ := none

/-- The functions for builtin operations are native and have the identities from the first one on. -/
theorem builtinFunctions_getElem? (identity : Nat) (operations : List Builtin) {position : Nat}
    {function : Function} (hfunction : (builtinFunctions identity operations)[position]? = some function) :
    function.identity = identity + position ∧ function.routine? = none ∧ position < operations.length := by
  induction operations generalizing identity position with
  | nil => cases hfunction
  | cons operation rest ih =>
    rw [builtinFunctions] at hfunction
    cases position with
    | zero =>
      obtain rfl := Option.some.inj hfunction
      exact ⟨rfl, rfl, Nat.zero_lt_succ _⟩
    | succ position =>
      obtain ⟨hidentity, hnative, hinside⟩ := ih (identity + 1) hfunction
      exact ⟨by omega, hnative, Nat.succ_lt_succ hinside⟩

/-- Binding functions that a registry knows keeps all globals valid. -/
theorem valid_foldl_register {registry : Registry} {functions : List Function}
    (hfunctions : ∀ function ∈ functions, registry.functions function.identity = some function)
    {globals : Globals} (hglobals : ∀ name : String, (globals.lookup name).Valid registry []) (name : String) :
    ((functions.foldl (fun bound function ↦ bound.register function.name (.function function))
      globals).lookup name).Valid registry [] := by
  induction functions generalizing globals with
  | nil => exact hglobals name
  | cons function rest ih =>
    refine ih (fun other hother ↦ hfunctions other (List.mem_cons_of_mem _ hother)) fun read ↦ ?_
    rw [Globals.lookup_register]
    split
    · exact hfunctions function List.mem_cons_self
    · exact hglobals read

/-- A machine that has run nothing is consistent when its globals are valid. -/
theorem consistent_ofLimits (limits : Limits) {globals : Globals} (sink : Sink) {nextIdentity : Nat}
    {registry : Registry} (hglobals : ∀ name : String, (globals.lookup name).Valid registry [])
    (hfunctions : ∀ (identity : Nat) (callee : Function),
      registry.functions identity = some callee → callee.routine? = none ∧ identity < nextIdentity)
    (hlayouts : ∀ identity : Nat, registry.layouts identity = none) :
    (ofLimits limits globals sink nextIdentity).Consistent [] [] registry
      ⟨globals, ⟨min limits.heapWords Word.indexLimit, []⟩, sink, #[]⟩ := by
  refine ⟨⟨⟨rfl, rfl, rfl, ⟨rfl, Nat.min_le_right _ _, [], rfl, List.Forall₂.nil⟩⟩, rfl,
    ⟨Nat.zero_le _, ?_⟩, rfl, rfl, rfl⟩, ⟨hglobals, by rintro _ ⟨⟩,
    by rintro _ ⟨⟩, by rintro _ ⟨⟩, by rintro _ ⟨⟩,
    fun _ hnone ↦ (by simp at hnone), Nat.min_le_right _ _⟩,
    ⟨⟨rfl, fun entry hentry ↦ ?_, fun entry hentry ↦ ?_⟩,
      fun identity callee hcallee ↦ (hfunctions identity callee hcallee).2,
      fun identity layout hlayout ↦ nomatch (hlayouts identity).symm.trans hlayout⟩,
    fun identity routine hroutine ↦ nomatch (hfunctions identity _ hroutine).1⟩
  · simp only [ofLimits, Stack.ofSizes, Array.size_replicate]
    exact Nat.min_le_right _ _
  · simp [ofLimits, ConstantTable.empty] at hentry
    rw [hentry]
    rfl
  · simp [ofLimits, ConstantTable.empty] at hentry
    rw [hentry]
    trivial

/-- A bare machine is consistent. -/
theorem consistent_bare (limits : Limits) (sink : Sink) :
    ∃ (registry : Registry) (world : World), (bare limits sink).Consistent [] [] registry world ∧
      registry.Listed [] := by
  refine ⟨⟨fun _ ↦ none, fun _ ↦ none⟩, _, consistent_ofLimits limits sink (fun name ↦ ?_)
    (fun _ _ hnone ↦ (nomatch hnone)) (fun _ ↦ rfl), fun _ _ hnone ↦ nomatch hnone⟩
  rw [Globals.lookup_empty]
  trivial

/-- A standard machine is consistent. -/
theorem consistent_standard (limits : Limits) (sink : Sink) :
    ∃ (registry : Registry) (world : World), (standard limits sink).Consistent [] [] registry world ∧
      registry.Listed [] := by
  have hnative : ∀ (identity : Nat) (callee : Function),
      builtinRegistry.functions identity = some callee →
        callee.routine? = none ∧ identity < Builtin.all.length := by
    intro identity callee hcallee
    obtain ⟨-, hroutine, hinside⟩ := builtinFunctions_getElem? 0 Builtin.all hcallee
    exact ⟨hroutine, hinside⟩
  have hglobals : ∀ name : String, (standardGlobals.lookup name).Valid builtinRegistry [] := by
    intro name
    unfold standardGlobals
    refine valid_foldl_register (fun function hfunction ↦ ?_) (fun read ↦ ?_) name
    · obtain ⟨position, hposition⟩ := List.mem_iff_getElem?.mp hfunction
      obtain ⟨hidentity, -, -⟩ := builtinFunctions_getElem? 0 Builtin.all hposition
      rw [hidentity, Nat.zero_add]
      exact hposition
    · rw [Globals.lookup_register]
      split
      · trivial
      · rw [Globals.lookup_empty]
        trivial
  exact ⟨builtinRegistry, _, consistent_ofLimits limits sink hglobals hnative fun _ ↦ rfl,
    fun identity routine hroutine ↦ nomatch (hnative identity _ hroutine).1⟩

end Machine

end ScriptMachine
