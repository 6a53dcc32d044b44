import ScriptMachine.Proofs.Definitions
import ScriptMachine.Proofs.SessionRuns

/-!
# Sessions with their definitions

`Session.Written` is a session with the definitions of all scripts that it has compiled, and every session has them
(`Session.exists_written`). Every function among its constants, or that was handed out, is described by one of them, and
the literals in its body are found there as well (`Session.Written.cover`).
-/

set_option autoImplicit false
set_option relaxedAutoImplicit false

namespace ScriptMachine

/-! ### Functions that are covered -/

/-- The most recent definition with the identity of a routine. -/
def Routine.definition? (routine : Routine) (definitions : List Definition) : Option Definition :=
  definitions.find? fun definition ↦ definition.identity == routine.identity

/-- The literals in the body of a function come before it, and are the most recent definitions with their
identities. -/
def Definition.Encloses (definition : Definition) (definitions : List Definition) : Prop :=
  ∀ literal ∈ definition.literals, literal.identity < definition.identity ∧
    definitions.find? (fun other ↦ other.identity == literal.identity) = some literal

/-- A routine is described by the most recent definition with its identity, and so are the literals in its body. -/
def Routine.WrittenIn (routine : Routine) (definitions : List Definition) : Prop :=
  ∃ definition : Definition, routine.definition? definitions = some definition ∧ definition.Describes routine ∧
    definition.Encloses definitions

/-- Every compiled function among some values is written in some definitions. -/
def Definition.Cover (definitions : List Definition) (values : List Value) : Prop :=
  ∀ routine : Routine, .function (.compiled routine) ∈ values → routine.WrittenIn definitions

/-- The definitions of a script are in the order of their identities, which come after those given away before. -/
theorem Script.numbered_definitions (script : Script) (first : Nat) :
    (script.definitions first).Pairwise (fun earlier later ↦ earlier.identity < later.identity) ∧
      ∀ definition ∈ script.definitions first, first ≤ definition.identity := by
  have hnumbered := script.numbered_closures first
  rw [← script.map_definitions] at hnumbered
  have hsorted := hnumbered.sorted
  rw [List.pairwise_map] at hsorted
  exact ⟨hsorted, fun definition hmem ↦ (hnumbered.bounds _ (List.mem_map_of_mem hmem)).1⟩

/-- A definition of a script is found by its identity. -/
theorem Script.find?_definitions {script : Script} {first : Nat} {definition : Definition}
    (hmem : definition ∈ script.definitions first) (definitions : List Definition) :
    (script.definitions first ++ definitions).find? (fun other ↦ other.identity == definition.identity) =
      some definition := by
  obtain ⟨hsorted, -⟩ := script.numbered_definitions first
  obtain ⟨before, after, hsplit⟩ := List.append_of_mem hmem
  rw [hsplit] at hsorted ⊢
  have hbefore : before.find? (fun other ↦ other.identity == definition.identity) = none := by
    rw [List.find?_eq_none]
    intro other hother hsame
    have hless := (List.pairwise_append.mp hsorted).2.2 other hother definition List.mem_cons_self
    rw [beq_iff_eq.mp hsame] at hless
    exact Nat.lt_irrefl _ hless
  rw [List.append_assoc, List.find?_append, hbefore, List.cons_append, List.find?_cons, beq_self_eq_true]
  rfl

/-- No definition of a script has an identity that was given away before. -/
theorem Script.find?_definitions_of_lt (script : Script) {first identity : Nat} (hless : identity < first)
    (definitions : List Definition) :
    (script.definitions first ++ definitions).find? (fun other ↦ other.identity == identity) =
      definitions.find? (fun other ↦ other.identity == identity) := by
  have hnone : (script.definitions first).find? (fun other ↦ other.identity == identity) = none := by
    rw [List.find?_eq_none]
    intro other hother hsame
    have hbound := (script.numbered_definitions first).2 other hother
    rw [beq_iff_eq.mp hsame] at hbound
    exact Nat.not_le_of_lt hless hbound
  rw [List.find?_append, hnone, Option.none_or]

namespace Routine.WrittenIn

variable {routine : Routine} {definitions : List Definition} {script : Script} {first : Nat}

/-- The code of a definition of a script is written in the definitions of the script. -/
theorem of_mem {definition : Definition} (hmem : definition ∈ script.definitions first)
    (hdescribes : definition.Describes routine) : routine.WrittenIn (script.definitions first ++ definitions) := by
  have hnests := script.nestsIn_definitions first definition hmem
  refine ⟨definition, ?_, hdescribes, fun literal hliteral ↦ ?_⟩
  · unfold Routine.definition?
    rw [hdescribes.identity]
    exact Script.find?_definitions hmem definitions
  · exact ⟨hnests.identity_lt hliteral,
      Script.find?_definitions (hnests.literals hliteral) definitions⟩

/-- A routine whose identity was given away before a script was compiled is written where it was. -/
theorem append (hwritten : routine.WrittenIn definitions) (hless : routine.identity < first) :
    routine.WrittenIn (script.definitions first ++ definitions) := by
  obtain ⟨definition, hfound, hdescribes, hencloses⟩ := hwritten
  refine ⟨definition, ?_, hdescribes, fun literal hliteral ↦ ?_⟩
  · unfold Routine.definition? at hfound ⊢
    rw [script.find?_definitions_of_lt hless, hfound]
  · obtain ⟨hbefore, hliteralFound⟩ := hencloses literal hliteral
    rw [← hdescribes.identity] at hbefore
    refine ⟨hdescribes.identity ▸ hbefore, ?_⟩
    rw [script.find?_definitions_of_lt (Nat.lt_trans hbefore hless), hliteralFound]

end Routine.WrittenIn

/-- The compiled functions of a consistent machine, and those that were handed out, are registered. -/
theorem Machine.Consistent.registered {machine : Machine} {known given : List Value} {closures : List Closure}
    {registry : Registry} {world : World} (hmachine : machine.Consistent known closures registry world)
    (hgiven : ∀ value ∈ given, value.Valid registry world.store.records) {routine : Routine}
    (hmem : .function (.compiled routine) ∈ machine.constants.entries.toList ++ (given ++ known)) :
    registry.functions routine.identity = some (.compiled routine) := by
  rcases List.mem_append.mp hmem with hentry | hother
  · exact hmachine.workspace.constants.valid _ (Array.mem_toList_iff.mp hentry)
  · rcases List.mem_append.mp hother with hnew | hknown
    · exact hgiven _ hnew
    · exact hmachine.world.given _ hknown

/-- Values stay covered when another one is handed out that is covered as well. -/
theorem Definition.Cover.insert {definitions : List Definition} {entries known : List Value} {given : Value}
    (hcover : Cover definitions (entries ++ known))
    (hgiven : ∀ routine : Routine, given = .function (.compiled routine) → routine.WrittenIn definitions) :
    Cover definitions (entries ++ ([given] ++ known)) := by
  intro routine hroutine
  rcases List.mem_cons.mp (List.perm_middle.mem_iff.mp hroutine) with hsame | hold
  · exact hgiven routine hsame.symm
  · exact hcover routine hold

/-- Values that a registry knows are covered when those that list it are. -/
theorem Definition.Cover.of_listed {definitions : List Definition} {values more : List Value} {registry : Registry}
    (hcover : Cover definitions values) (hlisted : registry.Listed values)
    (hmore : ∀ routine : Routine, .function (.compiled routine) ∈ more →
      registry.functions routine.identity = some (.compiled routine)) : Cover definitions more :=
  fun routine hroutine ↦ hcover routine (hlisted _ _ (hmore routine hroutine))

/-- The functions of the script of a command, with their lines. -/
def Engine.definitions (engine : Engine) (command : Command) : List Definition :=
  match command.script? with
  | some script => script.definitions engine.machine.nextIdentity
  | none => []

/-- The definitions of a command are its functions with their lines. -/
theorem Engine.map_definitions (engine : Engine) (command : Command) :
    (engine.definitions command).map Definition.toClosure = engine.closures command := by
  unfold definitions closures
  cases command.script? with
  | none => rfl
  | some script => exact script.map_definitions _

namespace Engine

variable {engine next : Engine} {known : List Value} {closures : List Closure} {definitions : List Definition}
  {command : Command}

/-- When a script is compiled, its functions are covered as well. -/
theorem Consistent.cover_compile (hconsistent : engine.Consistent known closures)
    (hcover : Definition.Cover definitions (engine.machine.constants.entries.toList ++ known)) (script : Script) :
    Definition.Cover (script.definitions engine.machine.nextIdentity ++ definitions)
        ((engine.compile script).2.machine.constants.entries.toList ++ known) ∧
      ∀ main : Routine, engine.main? script = some main →
        main.WrittenIn (script.definitions engine.machine.nextIdentity ++ definitions) := by
  obtain ⟨registry, world, hmachine, -⟩ := hconsistent
  have hold : ∀ routine : Routine, .function (.compiled routine) ∈ engine.machine.constants.entries.toList ++ known →
      routine.WrittenIn (script.definitions engine.machine.nextIdentity ++ definitions) := by
    intro routine hroutine
    have hregistered := @Machine.Consistent.registered _ _ [] _ _ _ hmachine (List.forall_mem_nil _) _ hroutine
    exact (hcover routine hroutine).append (hmachine.workspace.functions _ _ hregistered)
  have hnew : ∀ {table : ConstantTable}, engine.machine.constants.Defines table
      (definitionsOf engine.machine.nextIdentity script.body.nodes) →
      Definition.Cover (script.definitions engine.machine.nextIdentity ++ definitions)
        (table.entries.toList ++ known) := by
    intro table hdefines routine hroutine
    rcases List.mem_append.mp hroutine with hentry | hknown
    · rcases hdefines routine (Array.mem_toList_iff.mp hentry) with hbefore | ⟨definition, hdefinition, hdescribes⟩
      · exact hold routine (List.mem_append_left _ (Array.mem_toList_iff.mpr hbefore))
      · exact .of_mem (List.mem_append_left _ hdefinition) hdescribes
    · exact hold routine (List.mem_append_right _ hknown)
  have hdefines := defines_compileScript engine.strict script engine.machine.nextIdentity
    ⟨engine.machine.constants, engine.machine.nextIdentity⟩ rfl
  unfold main? compile Machine.compileWith
  cases hresult : compileScript engine.strict script ⟨engine.machine.constants, engine.machine.nextIdentity⟩ with
  | error error after =>
    rw [hresult] at hdefines
    exact ⟨hnew hdefines, by rintro _ ⟨⟩⟩
  | ok main after =>
    rw [hresult] at hdefines
    refine ⟨hnew hdefines.1, fun found hfound ↦ ?_⟩
    obtain rfl := Option.some.inj hfound
    exact .of_mem (List.mem_append_right _ (List.mem_singleton_self _)) hdefines.2.2

/-- Before the code of a command runs, all functions are covered, that of its script included. -/
theorem Consistent.cover_prepared (hconsistent : engine.Consistent known closures)
    (hcover : Definition.Cover definitions (engine.machine.constants.entries.toList ++ known)) (command : Command) :
    Definition.Cover (engine.definitions command ++ definitions)
        ((engine.prepared command).machine.constants.entries.toList ++ known) ∧
      ∀ (script : Script) (main : Routine), command.script? = some script → engine.main? script = some main →
        main.WrittenIn (engine.definitions command ++ definitions) := by
  unfold Engine.definitions prepared
  cases command.script? with
  | none => exact ⟨hcover, by rintro _ _ ⟨⟩⟩
  | some script =>
    obtain ⟨hprepared, hmain⟩ := hconsistent.cover_compile hcover script
    refine ⟨hprepared, fun found main hfound ↦ ?_⟩
    obtain rfl := Option.some.inj hfound
    exact hmain main

namespace Consistent

/-- The function that a command runs is covered. -/
theorem written_of_runs? (hconsistent : engine.Consistent known closures)
    (hcover : Definition.Cover definitions (engine.machine.constants.entries.toList ++ known)) {routine : Routine}
    {arguments : List Value} (hruns : engine.runs? command = some (routine, arguments)) :
    routine.WrittenIn (engine.definitions command ++ definitions) := by
  cases starts_of_runs? hruns with
  | eval hscript hmain => exact (hconsistent.cover_prepared hcover command).2 _ _ hscript hmain
  | @call name _ _ hglobal =>
    obtain ⟨registry, world, hmachine, hlisted⟩ := hconsistent
    have hregistered := hmachine.valid_lookup name
    rw [hglobal] at hregistered
    exact hcover routine (hlisted _ _ hregistered)

/-- All functions stay covered when a command runs code. -/
theorem cover_of_runs? (hconsistent : engine.Consistent known closures)
    (hcover : Definition.Cover definitions (engine.machine.constants.entries.toList ++ known))
    (hadmissible : command.Admissible known) (haddresses : engine.Addresses known command)
    (hsmall : engine.StaysSmall command) {routine : Routine} {arguments : List Value}
    (hruns : engine.runs? command = some (routine, arguments)) {steps : Nat} {answer : Answer}
    (hperformed : engine.perform steps command = some (answer, next)) :
    Definition.Cover (engine.definitions command ++ definitions)
      (next.machine.constants.entries.toList ++ (answer.given ++ known)) := by
  obtain ⟨hprepared, -⟩ := hconsistent.cover_prepared hcover command
  have hwritten := hconsistent.written_of_runs? hcover hruns
  obtain ⟨registry, world, -, hready, hlisted⟩ := hconsistent.ready hadmissible haddresses hruns
  have hall : Definition.Cover (engine.definitions command ++ definitions) (.function (.compiled routine) ::
      ((engine.prepared command).machine.constants.entries.toList ++ known)) := by
    intro found hfound
    rcases List.mem_cons.mp hfound with hsame | hmem
    · cases hsame
      exact hwritten
    · exact hprepared found hmem
  rw [Engine.perform_of_runs? hruns] at hperformed
  obtain ⟨outcome, hinvoked, hanswer⟩ := Option.map_eq_some_iff.mp hperformed
  obtain ⟨later, hmachine, -, hvalue, -⟩ := hready.of_invokeRoutine (hsmall.not_crowds hruns) hinvoked
  obtain ⟨located | value, machine⟩ := outcome
  · obtain ⟨rfl, rfl⟩ := Prod.mk.inj hanswer
    exact hall.of_listed hlisted fun _ ↦ hmachine.registered (List.forall_mem_nil _)
  · obtain ⟨rfl, rfl⟩ := Prod.mk.inj hanswer
    exact hall.of_listed hlisted fun _ ↦ hmachine.registered (List.forall_mem_singleton.mpr (hvalue value rfl))

/-- All functions stay covered when a script is compiled, also when its function is handed out. -/
theorem cover_compiled (hconsistent : engine.Consistent known closures)
    (hcover : Definition.Cover definitions (engine.machine.constants.entries.toList ++ known)) {script : Script}
    {given : List Value}
    (hgiven : given = [] ∨ ∃ main : Routine, engine.main? script = some main ∧ given = [.function (.compiled main)]) :
    Definition.Cover (script.definitions engine.machine.nextIdentity ++ definitions)
      ((engine.compile script).2.machine.constants.entries.toList ++ (given ++ known)) := by
  obtain ⟨hcompiled, hwritten⟩ := hconsistent.cover_compile hcover script
  rcases hgiven with rfl | ⟨main, hmain, rfl⟩
  · exact hcompiled
  · refine hcompiled.insert fun routine hsame ↦ ?_
    cases hsame
    exact hwritten main hmain

/-- All functions stay covered after a command that runs no code. -/
theorem cover_of_replies (hconsistent : engine.Consistent known closures)
    (hcover : Definition.Cover definitions (engine.machine.constants.entries.toList ++ known))
    (hadmissible : command.Admissible known) {answer : Answer} (hreplies : engine.Replies command answer next) :
    Definition.Cover (engine.definitions command ++ definitions)
      (next.machine.constants.entries.toList ++ (answer.given ++ known)) := by
  cases hreplies with
  | @refused command script error hscript =>
    rw [Engine.definitions, hscript]
    exact hconsistent.cover_compiled hcover (Or.inl rfl)
  | unreadable hscript =>
    rw [Engine.definitions, Command.script?, hscript]
    exact hcover
  | @compiled script main haccepted =>
    refine hconsistent.cover_compiled hcover (Or.inr ⟨main, ?_, rfl⟩)
    rw [main?, haccepted]
    rfl
  | dumped => exact hconsistent.cover_compiled hcover (Or.inl rfl)
  | returned hglobal happlied =>
    obtain ⟨registry, world, hmachine, hlisted⟩ := hconsistent
    obtain ⟨later, hlater, -, hvalue⟩ := hmachine.of_applyNative_ok hadmissible happlied
    exact hcover.of_listed hlisted fun _ ↦ hlater.registered (List.forall_mem_singleton.mpr hvalue)
  | failed hglobal happlied =>
    obtain ⟨registry, world, hmachine, hlisted⟩ := hconsistent
    obtain ⟨later, hlater, -, -⟩ := hmachine.of_applyNative_error hadmissible happlied
    exact hcover.of_listed hlisted fun _ ↦ hlater.registered (List.forall_mem_nil _)
  | lookup name =>
    obtain ⟨registry, world, hmachine, hlisted⟩ := hconsistent
    exact hcover.of_listed hlisted fun _ ↦
      hmachine.registered (List.forall_mem_singleton.mpr (hmachine.valid_lookup name))
  | @read object name value hfield =>
    obtain ⟨registry, world, hmachine, hlisted⟩ := hconsistent
    obtain ⟨found, hfound, hvalid⟩ := hmachine.exists_getField hadmissible name
    obtain rfl := Except.ok.inj (hfound.symm.trans hfield)
    exact hcover.of_listed hlisted fun _ ↦ hmachine.registered (List.forall_mem_singleton.mpr hvalid)
  | newClass | newHostFunction => exact hcover.insert (by rintro _ ⟨⟩)
  | notFunction | unread | register | takePrinted => exact hcover

/-- All functions stay covered after any command. -/
theorem cover_perform (hconsistent : engine.Consistent known closures)
    (hcover : Definition.Cover definitions (engine.machine.constants.entries.toList ++ known))
    (hadmissible : command.Admissible known) (haddresses : engine.Addresses known command)
    (hsmall : engine.StaysSmall command) {steps : Nat} {answer : Answer}
    (hperformed : engine.perform steps command = some (answer, next)) :
    Definition.Cover (engine.definitions command ++ definitions)
      (next.machine.constants.entries.toList ++ (answer.given ++ known)) := by
  cases hruns : engine.runs? command with
  | some run =>
    obtain ⟨routine, arguments⟩ := run
    exact hconsistent.cover_of_runs? hcover hadmissible haddresses hsmall hruns hperformed
  | none => exact hconsistent.cover_of_replies hcover hadmissible (replies_of_perform hruns hperformed)

end Consistent

end Engine

/-! ### Sessions with their definitions -/

/-- A session with the definitions of all scripts that it has compiled, the most recent ones first. -/
inductive Session.Written : Engine → List Value → List Definition → Prop where
  | standard (limits : Limits) (sink : Sink) (strict : Bool) :
      Written ⟨Machine.standard limits sink, strict⟩ [] []
  | bare (limits : Limits) (sink : Sink) (strict : Bool) :
      Written ⟨Machine.bare limits sink, strict⟩ [] []
  | step {engine next : Engine} {known : List Value} {definitions : List Definition} {command : Command}
      {steps : Nat} {answer : Answer} (hwritten : Written engine known definitions)
      (hadmissible : command.Admissible known) (haddresses : engine.Addresses known command)
      (hsmall : engine.StaysSmall command)
      (hperformed : engine.perform steps command = some (answer, next)) :
      Written next (answer.given ++ known) (engine.definitions command ++ definitions)

namespace Session

variable {engine : Engine} {known : List Value} {closures : List Closure} {definitions : List Definition}

/-- The functions of every session have lines. -/
theorem exists_written (hsession : Session engine known closures) :
    ∃ definitions : List Definition, Written engine known definitions ∧
      definitions.map Definition.toClosure = closures := by
  induction hsession with
  | standard limits sink strict => exact ⟨[], .standard limits sink strict, rfl⟩
  | bare limits sink strict => exact ⟨[], .bare limits sink strict, rfl⟩
  | step _ hadmissible haddresses hsmall hperformed ih =>
    obtain ⟨definitions, hwritten, rfl⟩ := ih
    refine ⟨_, hwritten.step hadmissible haddresses hsmall hperformed, ?_⟩
    rw [List.map_append, Engine.map_definitions]

/-- Without the lines, the definitions of a session are its functions. -/
theorem Written.session (hwritten : Written engine known definitions) :
    Session engine known (definitions.map Definition.toClosure) := by
  induction hwritten with
  | standard limits sink strict => exact .standard limits sink strict
  | bare limits sink strict => exact .bare limits sink strict
  | step _ hadmissible haddresses hsmall hperformed ih =>
    rw [List.map_append, Engine.map_definitions]
    exact ih.step hadmissible haddresses hsmall hperformed

/-- All functions of a session are covered by its definitions. -/
theorem Written.cover (hwritten : Written engine known definitions) :
    Definition.Cover definitions (engine.machine.constants.entries.toList ++ known) := by
  induction hwritten with
  | standard limits sink strict =>
    obtain ⟨registry, world, hmachine, hlisted⟩ := Machine.consistent_standard limits sink
    exact @Definition.Cover.of_listed _ [] _ _ (by rintro _ ⟨⟩) hlisted fun _ ↦
      @Machine.Consistent.registered _ _ [] _ _ _ hmachine (List.forall_mem_nil _) _
  | bare limits sink strict =>
    obtain ⟨registry, world, hmachine, hlisted⟩ := Machine.consistent_bare limits sink
    exact @Definition.Cover.of_listed _ [] _ _ (by rintro _ ⟨⟩) hlisted fun _ ↦
      @Machine.Consistent.registered _ _ [] _ _ _ hmachine (List.forall_mem_nil _) _
  | step hwritten hadmissible haddresses hsmall hperformed ih =>
    exact hwritten.session.consistent.cover_perform ih hadmissible haddresses hsmall hperformed

end Session

end ScriptMachine
