import ScriptMachine.Proofs.HeapHistory

/-!
# Objects over whole sessions

`Session.Recorded` is a session together with all changes of the heap that its code has made so far. The machine
remembers them at any time (`Session.keeps_objects`): between two commands, and before and after each instruction
of a command, whether it fails or not. So a field of an object that the host knows has the value that it was
given last.
-/

set_option autoImplicit false
set_option relaxedAutoImplicit false

namespace ScriptMachine

/-! ### Changes of commands -/

/-- The changes of the heap that come with the first instructions of a call. -/
def Machine.changes (steps : Nat) (routine : Routine) (receiver : Value) (arguments : List Value)
    (machine : Machine) : List HeapChange :=
  let (word, machine) := machine.box (.function (.compiled routine))
  let frame : Frame := ⟨routine, word⟩
  match Execution.enterFromHost frame receiver arguments ⟨machine, frame, 0⟩ with
  | .ok () start => start.changes steps
  | .error _ _ => []

/-- The changes of the heap that come with the first instructions of a command. -/
def Engine.changes (steps : Nat) (engine : Engine) (command : Command) : List HeapChange :=
  match engine.runs? command with
  | some (routine, arguments) => (engine.prepared command).machine.changes steps routine .undefined arguments
  | none => []

/-- The changes of a command are those of the activity in which its code begins. -/
theorem Engine.Begins.changes_eq {engine : Engine} {command : Command} {start : Activity}
    (hbegins : engine.Begins command start) (steps : Nat) :
    engine.changes steps command = start.changes steps := by
  obtain ⟨routine, arguments, hruns, henters⟩ := hbegins
  unfold Machine.Enters at henters
  unfold Engine.changes
  rw [hruns]
  unfold Machine.changes
  dsimp only at henters ⊢
  rw [henters]

/-- A session with all changes of the heap, the earliest ones first. -/
inductive Session.Recorded : Engine → List Value → List Closure → List HeapChange → Prop where
  | standard (limits : Limits) (sink : Sink) (strict : Bool) :
      Recorded ⟨Machine.standard limits sink, strict⟩ [] [] []
  | bare (limits : Limits) (sink : Sink) (strict : Bool) :
      Recorded ⟨Machine.bare limits sink, strict⟩ [] [] []
  | step {engine next : Engine} {known : List Value} {closures : List Closure} {changes : List HeapChange}
      {command : Command} {steps : Nat} {answer : Answer}
      (hrecorded : Recorded engine known closures changes) (hadmissible : command.Admissible known)
      (haddresses : engine.Addresses known command) (hsmall : engine.StaysSmall command)
      (hperformed : engine.perform steps command = some (answer, next)) :
      Recorded next (answer.given ++ known) (engine.closures command ++ closures)
        (changes ++ engine.changes steps command)

/-- The changes of a session can be recorded. -/
theorem Session.exists_recorded {engine : Engine} {known : List Value} {closures : List Closure}
    (hsession : Session engine known closures) :
    ∃ changes : List HeapChange, Session.Recorded engine known closures changes := by
  induction hsession with
  | standard limits sink strict => exact ⟨[], .standard limits sink strict⟩
  | bare limits sink strict => exact ⟨[], .bare limits sink strict⟩
  | step _ hadmissible haddresses hsmall hperformed ih =>
    obtain ⟨changes, hrecorded⟩ := ih
    exact ⟨_, hrecorded.step hadmissible haddresses hsmall hperformed⟩

/-- What is recorded is a session. -/
theorem Session.Recorded.session {engine : Engine} {known : List Value} {closures : List Closure}
    {changes : List HeapChange} (hrecorded : Session.Recorded engine known closures changes) :
    Session engine known closures := by
  induction hrecorded with
  | standard limits sink strict => exact .standard limits sink strict
  | bare limits sink strict => exact .bare limits sink strict
  | step _ hadmissible haddresses hsmall hperformed ih => exact ih.step hadmissible haddresses hsmall hperformed

/-! ### Machines between commands -/

namespace Machine

variable {machine later : Machine} {world : World} {registry : Registry} {known : List Value}
  {changes : List HeapChange} {live : List Word}

/-- What a machine remembers stays when only constants are added. -/
theorem Remembers.of_same (hremembers : machine.Remembers changes live)
    (hheap : later.heap = machine.heap) (hextends : machine.constants.Extends later.constants)
    (hshows : later.Shows world) (hvalid : world.Valid registry known) : later.Remembers changes live := by
  have hsame := @Remembers.apply machine later changes live hremembers none (by rintro _ ⟨⟩)
    (congrArg Heap.contents hheap) hextends world registry known hshows hvalid
  rwa [Option.toList_none, List.append_nil] at hsame

/-- A machine with an empty heap has nothing to remember. -/
theorem remembers_nil (hshows : machine.Shows world) (hvalid : world.Valid registry known)
    (hempty : machine.heap.used = 0) : machine.Remembers [] [] := by
  have hcontents : machine.heap.contents = [] := by
    rw [← List.length_eq_zero_iff, Heap.length_contents, hempty]
  obtain ⟨hsplits, -, hfinds⟩ := @Shows.leads machine world registry known hshows hvalid []
    (List.forall_mem_nil _) hcontents
  exact ⟨hsplits, List.forall_mem_nil _,
    fun name object hglobal ↦ hfinds object (hglobal ▸ hshows.globals ▸ hvalid.globals name).present,
    fun _ _ _ _ _ hnone ↦ nomatch hnone⟩

end Machine

/-- A machine with the same heap and globals and maybe more constants. -/
structure Machine.Grows (machine later : Machine) : Prop where
  heap : later.heap = machine.heap
  globals : later.globals = machine.globals
  constants : machine.constants.Extends later.constants

theorem Machine.Grows.refl (machine : Machine) : machine.Grows machine :=
  ⟨rfl, rfl, .refl _⟩

/-- Building the first frame of a call leaves the heap as it is and only adds constants. -/
theorem Machine.Enters.grows {machine : Machine} {routine : Routine} {receiver : Value}
    {arguments : List Value} {start : Activity} (henters : machine.Enters routine receiver arguments start) :
    start.machine.heap = machine.heap ∧ machine.constants.Extends start.machine.constants := by
  have hgrows := machine.grows_entry routine receiver arguments
  unfold Machine.Enters at henters
  unfold Execution.after at hgrows
  dsimp only at henters hgrows
  rw [henters] at hgrows
  exact ⟨hgrows.heap, hgrows.constants⟩

namespace Engine.Consistent

variable {engine next : Engine} {known : List Value} {closures : List Closure} {command : Command}
  {changes : List HeapChange}

/-- Compiling a script only adds constants. -/
theorem compile_grows (hconsistent : engine.Consistent known closures) (script : Script) :
    engine.machine.Grows (engine.compile script).2.machine := by
  obtain ⟨registry, world, hmachine, -⟩ := hconsistent
  obtain ⟨-, -, -, hextends, -⟩ := hmachine.compileScript engine.strict script (Prod.eta _).symm
  refine ⟨?_, ?_, hextends⟩
  all_goals
    unfold Engine.compile Machine.compileWith
    dsimp only
    cases compileScript engine.strict script ⟨engine.machine.constants, engine.machine.nextIdentity⟩ <;> rfl

/-- Preparing a command only adds constants. -/
theorem prepared_grows (hconsistent : engine.Consistent known closures) (command : Command) :
    engine.machine.Grows (engine.prepared command).machine := by
  unfold prepared
  cases command.script? with
  | none => exact .refl _
  | some script => exact hconsistent.compile_grows script

/-- A command that runs no code binds a global for the host, or only adds constants. -/
theorem idle_cases (hconsistent : engine.Consistent known closures) {answer : Answer}
    (hreplies : engine.Replies command answer next) :
    (∃ (name : String) (value : Value), command = .register name value ∧
      next.machine = engine.machine.register name value) ∨ engine.machine.Grows next.machine := by
  have hsame : ∀ {machine : Machine}, machine.heap = engine.machine.heap →
      machine.globals = engine.machine.globals → machine.constants = engine.machine.constants →
      engine.machine.Grows machine :=
    fun hheap hglobals hconstants ↦ ⟨hheap, hglobals, hconstants ▸ .refl _⟩
  cases hreplies with
  | register name value => exact Or.inl ⟨name, value, rfl, rfl⟩
  | @refused command script | @compiled script | @dumped script => exact Or.inr (hconsistent.compile_grows script)
  | returned hglobal happlied =>
    obtain ⟨sink, rfl⟩ := Machine.exists_of_applyNative (Or.inl ⟨_, happlied⟩)
    exact Or.inr (hsame rfl rfl rfl)
  | failed hglobal happlied =>
    obtain ⟨sink, rfl⟩ := Machine.exists_of_applyNative (Or.inr ⟨_, happlied⟩)
    exact Or.inr (hsame rfl rfl rfl)
  | unreadable | notFunction | lookup | read | unread => exact Or.inr (.refl _)
  | newClass | newHostFunction | takePrinted => exact Or.inr (hsame rfl rfl rfl)

/-- The machine in which the code of a command begins remembers what it did before. -/
theorem remembers_start (hconsistent : engine.Consistent known closures)
    (hremembers : engine.machine.Remembers changes []) {start : Activity} (hbegins : engine.Begins command start)
    {limit : Nat} {registry : Registry} {chain : FrameChain} {calls : CallStack}
    (htracked : Tracked limit registry known start chain calls) : start.machine.Remembers changes [] := by
  obtain ⟨routine, arguments, -, henters⟩ := hbegins
  obtain ⟨hheap, -, hextends⟩ := hconsistent.prepared_grows command
  obtain ⟨hsame, hmore⟩ := henters.grows
  exact hremembers.of_same (hsame.trans hheap) (hextends.trans hmore) htracked.mirrors.realizes.rests.shows
    htracked.valid.world

/-- After a command, the machine remembers the changes that came with it. -/
theorem remembers_perform (hconsistent : engine.Consistent known closures)
    (hadmissible : command.Admissible known) (haddresses : engine.Addresses known command)
    (hsmall : engine.StaysSmall command) (hremembers : engine.machine.Remembers changes []) {steps : Nat}
    {answer : Answer} (hperformed : engine.perform steps command = some (answer, next)) :
    next.machine.Remembers (changes ++ engine.changes steps command) [] := by
  obtain ⟨registry, world, hmachine, -⟩ :=
    (hconsistent.perform hadmissible haddresses hsmall hperformed).1
  have hshows := hmachine.realizes.shows
  have hvalid := hmachine.world
  unfold Engine.changes
  cases hruns : engine.runs? command with
  | none =>
    rw [List.append_nil]
    have hreplies := replies_of_perform hruns hperformed
    rcases hconsistent.idle_cases hreplies with ⟨name, value, -, hnext⟩ | ⟨hheap, -, hextends⟩
    · exact hremembers.of_same (hnext ▸ rfl) (hnext ▸ .refl _) hshows hvalid
    · exact hremembers.of_same hheap hextends hshows hvalid
  | some run =>
    obtain ⟨routine, arguments⟩ := run
    rw [Engine.perform_of_runs? hruns] at hperformed
    obtain ⟨outcome, hinvoked, hanswer⟩ := Option.map_eq_some_iff.mp hperformed
    have hnext : next.machine = outcome.2 := by
      obtain ⟨located | value, machine⟩ := outcome <;> cases hanswer <;> rfl
    unfold Machine.changes
    unfold Machine.invokeRoutine at hinvoked
    dsimp only at hinvoked ⊢
    split at hinvoked
    case h_1 fault entered hrefused =>
      cases hinvoked
      obtain ⟨hheap, -, hextends⟩ := hconsistent.prepared_grows command
      have hgrows := (engine.prepared command).machine.grows_entry routine .undefined arguments
      unfold Execution.after at hgrows
      dsimp only at hgrows
      rw [hrefused] at hgrows ⊢
      dsimp only at hgrows ⊢
      rw [List.append_nil]
      exact hremembers.of_same (hnext ▸ hgrows.heap.trans hheap) (hnext ▸ hextends.trans hgrows.constants)
        hshows hvalid
    case h_2 start hentered =>
      have hbegins : engine.Begins command start := ⟨routine, arguments, hruns, hentered⟩
      obtain ⟨_, chain, calls, htracked, -⟩ := hconsistent.exists_start hadmissible haddresses hsmall hbegins
      have hstart := hconsistent.remembers_start hremembers hbegins htracked
      rw [hentered]
      dsimp only
      cases hrun : start.run steps with
      | none =>
        rw [hrun] at hinvoked
        cases hinvoked
      | some found =>
        have hended := htracked.remembers_run hstart hrun
        obtain ⟨located | value, machine⟩ := found <;> rw [hrun] at hinvoked <;> cases hinvoked <;>
          exact hended.of_same (hnext ▸ rfl) (hnext ▸ .refl _) hshows hvalid

end Engine.Consistent

/-! ### Instructions -/

/-- The heap after an instruction, whether it fails or not, still has every object where it was, with its header
and its mark and as many fields, and only the change of the instruction tells it from the heap before. What is
left on the stack after a failure was there before. -/
structure Activity.KeepsObjects (activity next : Activity) (changes : List HeapChange) (live : List Word) : Prop
    where
  remembers : next.machine.Remembers (changes ++ activity.change?.toList) live
  kept : HeapRow.Kept (HeapChange.rowsOf changes) (HeapChange.rowsOf (changes ++ activity.change?.toList))
  used_le : activity.machine.heap.used ≤ next.machine.heap.used
  stack : ∀ fault : Fault, Execution.step activity = .error fault next →
    next.machine.stack.contents <+: activity.machine.stack.contents

/-- An instruction of a running machine keeps all objects. -/
theorem Tracked.keepsObjects {limit : Nat} {registry : Registry} {known : List Value} {activity next : Activity}
    {chain : FrameChain} {calls : CallStack} {changes : List HeapChange} {live : List Word}
    (htracked : Tracked limit registry known activity chain calls)
    (hremembers : activity.machine.Remembers changes live)
    (hstep : (∃ value : Option Value, Execution.step activity = .ok value next) ∨
      ∃ fault : Fault, Execution.step activity = .error fault next) :
    activity.KeepsObjects next changes live := by
  have hafter : Execution.step.after activity = next := by
    rcases hstep with ⟨value, hresult⟩ | ⟨fault, hresult⟩ <;> rw [Execution.after, hresult]
  have happlies := hafter ▸ activity.applies_step
  have hlater := hafter ▸ htracked.remembers_step hremembers
  refine ⟨hlater, ?_, ?_, fun fault herror ↦ htracked.prefix_of_error herror⟩
  · cases hchange : activity.change? with
    | none =>
      rw [Option.toList_none, List.append_nil]
      exact .refl _
    | some change =>
      rw [Option.toList_some, HeapChange.rowsOf_append]
      exact (htracked.suits_change hremembers.splits.shaped hremembers.splits.contents hchange).kept
  · have hlength := congrArg List.length happlies.contents
    rw [Heap.length_contents] at hlength
    rw [hlength, ← Heap.length_contents]
    cases activity.change? with
    | none => exact Nat.le_refl _
    | some change =>
      cases change with
      | make => exact Nat.le_trans (Nat.le_add_right _ _) (Nat.le_of_eq List.length_append.symm)
      | assign => exact Nat.le_of_eq List.length_set.symm

/-! ### Sessions -/

namespace Session

/-- The machine of a session remembers all changes of the heap. -/
theorem Recorded.remembers {engine : Engine} {known : List Value} {closures : List Closure}
    {changes : List HeapChange} (hrecorded : Session.Recorded engine known closures changes) :
    engine.machine.Remembers changes [] := by
  induction hrecorded with
  | standard limits sink strict =>
    obtain ⟨registry, world, hmachine, -⟩ := Machine.consistent_standard limits sink
    exact Machine.remembers_nil hmachine.realizes.shows hmachine.world rfl
  | bare limits sink strict =>
    obtain ⟨registry, world, hmachine, -⟩ := Machine.consistent_bare limits sink
    exact Machine.remembers_nil hmachine.realizes.shows hmachine.world rfl
  | step hrecorded hadmissible haddresses hsmall hperformed ih =>
    exact hrecorded.session.consistent.remembers_perform hadmissible haddresses hsmall ih hperformed

end Session

/-- All objects of a session stay on the heap as they were made, but for their fields that are assigned. At any
time, between commands as well as before and after each instruction of a command, whether it fails or not, the
used words of the heap split into the objects that the changes so far have made, and the words of fields, of live
slots and of globals lead to these objects. So a field of an object that the host knows has the value that it
was given last, and every other name leads to nothing. -/
theorem Session.keeps_objects {engine : Engine} {known : List Value} {closures : List Closure}
    (hsession : Session engine known closures) :
    (∃ changes : List HeapChange, Session.Recorded engine known closures changes) ∧
      ∀ changes : List HeapChange, Session.Recorded engine known closures changes →
        engine.machine.stack.contents = [] ∧ engine.machine.Remembers changes [] ∧
          (∀ (object : ObjectRef) (name : String), .object object ∈ known →
            engine.machine.Finds (HeapChange.rowsOf changes) object ∧
              (name ∉ object.layout.fields → engine.machine.getField object name = .ok .undefined) ∧
              (name ∈ object.layout.fields → ∃ value : Value,
                engine.machine.getField object name = .ok value ∧
                  HeapChange.lastValue object.index.toNat name changes = some value)) ∧
          ∀ command : Command, command.Admissible known → engine.Addresses known command →
            engine.StaysSmall command → ∀ activity : Activity, engine.Visits command activity →
              ∃ (steps : Nat) (chain : FrameChain), activity.Framed chain ∧
                activity.machine.Remembers (changes ++ engine.changes steps command) chain.live ∧
                engine.changes (steps + 1) command =
                  engine.changes steps command ++ activity.change?.toList ∧
                ∀ next : Activity, (∃ value : Option Value, Execution.step activity = .ok value next) ∨
                    (∃ fault : Fault, Execution.step activity = .error fault next) →
                  activity.KeepsObjects next (changes ++ engine.changes steps command) chain.live := by
  refine ⟨hsession.exists_recorded, fun changes hrecorded ↦ ?_⟩
  have hremembers := hrecorded.remembers
  have hconsistent := hsession.consistent
  obtain ⟨registry, world, hmachine, -⟩ := hsession.consistent
  refine ⟨hmachine.realizes.contents, hremembers, fun object name hknown ↦ ?_,
    fun command hadmissible haddresses hsmall activity hvisits ↦ ?_⟩
  · have hfinds := (hmachine.realizes.shows.leads hmachine.world hremembers.splits.shaped
      hremembers.splits.contents).2.2 object (hmachine.world.given _ hknown).present
    have hfield := hremembers.getField hfinds name
    refine ⟨hfinds, fun hmissing ↦ ?_, fun hmem ↦ ?_⟩
    · rwa [Class.slotOf?_eq_none_iff.mpr hmissing] at hfield
    · cases hslot : object.layout.slotOf? name with
      | none => exact absurd hmem (Class.slotOf?_eq_none_iff.mp hslot)
      | some slot => rwa [hslot] at hfield
  · obtain ⟨start, hbegins, hreaches⟩ := hvisits
    obtain ⟨registry, first, firstCalls, hstart, houtermost, -, hhost⟩ :=
      hconsistent.exists_start hadmissible haddresses hsmall hbegins
    obtain ⟨chain, calls, htracked, -, hsameHost, hawaits⟩ := hstart.exists_awaiting houtermost hreaches
    obtain ⟨steps, hreached, hmore⟩ :=
      hstart.remembers_of_reaches (hconsistent.remembers_start hremembers hbegins hstart) hreaches
    rw [← hbegins.changes_eq] at hreached
    rw [← hbegins.changes_eq, ← hbegins.changes_eq] at hmore
    have hlive := htracked.remembers_live hreached
    exact ⟨steps, chain, htracked.framed (hsameHost.trans hhost) hawaits, hlive, hmore,
      fun next hstep ↦ htracked.keepsObjects hlive hstep⟩

/-- A fresh engine has no objects. While it runs its first script, which makes an object and assigns a field of
it, the machine remembers the changes so far. -/
theorem Session.keeps_objects_cyclic :
    Session Engine.fresh [] [] ∧ Session.Recorded Engine.fresh [] [] [] ∧
      Engine.fresh.machine.Remembers [] [] ∧
      ∀ activity : Activity, Engine.fresh.Visits (.eval Script.cyclic) activity →
        ∃ (steps : Nat) (chain : FrameChain), activity.Framed chain ∧
          activity.machine.Remembers (Engine.fresh.changes steps (.eval Script.cyclic)) chain.live := by
  have hsession : Session Engine.fresh [] [] := .standard _ _ _
  have hrecorded : Session.Recorded Engine.fresh [] [] [] := .standard _ _ _
  obtain ⟨-, hkeeps⟩ := hsession.keeps_objects
  obtain ⟨-, hremembers, -, hruns⟩ := hkeeps [] hrecorded
  refine ⟨hsession, hrecorded, hremembers, fun activity hvisits ↦ ?_⟩
  obtain ⟨steps, chain, hframed, hlive, -⟩ := hruns (.eval Script.cyclic) trivial Engine.addresses_cyclic
    (Engine.staysSmall_fresh _) activity hvisits
  rw [List.nil_append] at hlive
  exact ⟨steps, chain, hframed, hlive⟩

end ScriptMachine
