import ScriptMachine.Proofs.Observation
import ScriptMachine.Proofs.Termination

/-!
# Limits only cut runs short

An engine loosens another one when the two differ in nothing but their limits and in the cells of the stack that
are not in use (`Engine.Loosens`). Whatever is asked of the two, they answer the same and look alike afterwards,
or the first one answers that a limit is exhausted which the second one has larger, and what it had printed by
then is the beginning of what the second one prints (`Engine.Loosens.answersAlike`). For sessions this is
`Session.limits_only_cut`. With equal limits nothing can be cut short, so that the size with which a stack begins
does not matter.
-/

set_option autoImplicit false
set_option relaxedAutoImplicit false

namespace ScriptMachine

/-! ### Machines with larger limits -/

/-- A machine differs from another one in nothing but the cells of the stack that are not in use, and in larger
limits where these are allowed. -/
structure Machine.Loosens (slack : Slack) (machine looser : Machine) : Prop where
  fits : looser.stack.Fits
  contents : machine.stack.contents = looser.stack.contents
  base : machine.stack.base = looser.stack.base
  limit : machine.stack.limit ≤ looser.stack.limit
  sameLimit : ¬ slack.stack → machine.stack.limit = looser.stack.limit
  used : machine.heap.used = looser.heap.used
  words : machine.heap.words = looser.heap.words
  capacity : machine.heap.capacity ≤ looser.heap.capacity
  sameCapacity : ¬ slack.heap → machine.heap.capacity = looser.heap.capacity
  addressable : looser.heap.capacity ≤ Word.indexLimit
  constants : machine.constants = looser.constants
  globals : machine.globals = looser.globals
  sink : Sink.Looser slack.sink machine.sink looser.sink
  hosts : machine.hosts = looser.hosts
  nextIdentity : machine.nextIdentity = looser.nextIdentity

/-- The world with the limits of a machine. -/
def World.within (world : World) (machine : Machine) : World :=
  ⟨world.globals, ⟨machine.heap.capacity, world.store.records⟩, machine.sink, world.hosts⟩

namespace Machine.Loosens

variable {slack : Slack} {machine looser : Machine} {registry : Registry} {known : List Value}
  {closures : List Closure} {world : World}

/-- The looser machine shows the same world but for the limits. -/
theorem shows (hloosens : machine.Loosens slack looser) (hshows : machine.Shows world) :
    looser.Shows (world.within looser) := by
  have hcontents : looser.heap.contents = machine.heap.contents := by
    simp only [Heap.contents, ← hloosens.used]
    refine List.map_congr_left fun position _ ↦ ?_
    rw [Heap.load, Heap.load, hloosens.words]
  refine ⟨hloosens.globals.symm.trans hshows.globals, rfl, hloosens.hosts.symm.trans hshows.hosts, rfl,
    hloosens.addressable, ?_⟩
  rw [hcontents, ← hloosens.constants]
  exact hshows.heap.rows

/-- The looser machine is consistent as well. -/
theorem consistent (hloosens : machine.Loosens slack looser)
    (hconsistent : machine.Consistent known closures registry world) :
    looser.Consistent known closures registry (world.within looser) := by
  have hvalid := hconsistent.world
  refine ⟨⟨hloosens.shows hconsistent.realizes.shows, rfl, hloosens.fits,
    hloosens.contents.symm.trans hconsistent.realizes.contents, hloosens.base.symm.trans hconsistent.realizes.base,
    rfl⟩, ⟨hvalid.globals, hvalid.layouts, hvalid.shaped, hvalid.fields, hvalid.given, hvalid.hosts,
    hloosens.addressable⟩, ?_, ?_⟩
  · rw [← hloosens.constants, ← hloosens.nextIdentity]
    exact hconsistent.workspace
  · rw [← hloosens.constants]
    exact hconsistent.compiled

/-- The worlds of the two machines are alike. -/
theorem like_within (hloosens : machine.Loosens slack looser) (hshows : machine.Shows world)
    (hvalid : world.Valid registry known) : world.Like registry.equality slack (world.within looser) := by
  refine hvalid.like_loosened ?_ ?_ ?_
  · rw [← hshows.heap.capacity]
    exact hloosens.capacity
  · rw [← hshows.heap.capacity]
    exact hloosens.sameCapacity
  · rw [← hshows.sink]
    exact hloosens.sink

/-- The two machines look alike. -/
theorem looksLike (hloosens : machine.Loosens slack looser)
    (hconsistent : machine.Consistent known closures registry world) : machine.LooksLike looser :=
  have hshows := hconsistent.realizes.shows
  (hloosens.like_within hshows hconsistent.world).looksLike registry.exact_equality hconsistent.world.shaped hshows
    (hloosens.shows hshows)

/-- The second machine has at least as much room on its stack. -/
theorem room (hloosens : machine.Loosens slack looser) (below : Nat) :
    slack.Room machine.stack.limit below looser.stack.limit below :=
  ⟨fun _ hfits ↦ Nat.le_trans hfits hloosens.limit, fun hnot ↦ ⟨hloosens.sameLimit hnot, rfl⟩⟩

/-- Both machines go on with other constants, globals, functions of the host and identities. -/
theorem withParts (hloosens : machine.Loosens slack looser) (constants : ConstantTable) (globals : Globals)
    (hosts : Array HostFunction) (nextIdentity : Nat) {sink sink' : Sink}
    (hsink : Sink.Looser slack.sink sink sink') :
    Machine.Loosens slack ⟨machine.stack, machine.heap, constants, globals, sink, hosts, nextIdentity⟩
      ⟨looser.stack, looser.heap, constants, globals, sink', hosts, nextIdentity⟩ :=
  ⟨hloosens.fits, hloosens.contents, hloosens.base, hloosens.limit, hloosens.sameLimit, hloosens.used,
    hloosens.words, hloosens.capacity, hloosens.sameCapacity, hloosens.addressable, rfl, rfl, hsink, rfl, rfl⟩

/-- Both machines read the same values. -/
theorem decode_eq (hloosens : machine.Loosens slack looser) (word : Word) :
    machine.decode word = looser.decode word := by
  have hload : ∀ position : Nat, machine.heap.load position = looser.heap.load position := by
    intro position
    rw [Heap.load, Heap.load, hloosens.words]
  have hheader : ∀ index : UInt32, machine.heap.classWord index = looser.heap.classWord index := by
    intro index
    rw [Heap.classWord, Heap.classWord, hloosens.used, hload]
  rw [Machine.decode, Machine.decode, ScriptMachine.decode, ScriptMachine.decode, hloosens.used, hloosens.constants]
  induction looser.heap.used + 2 generalizing word with
  | zero => rfl
  | succ steps ih => simp only [decodeWithin, hheader, ih]

/-- Both machines read the same fields. -/
theorem getField_eq (hloosens : machine.Loosens slack looser) (object : ObjectRef) (name : String) :
    machine.getField object name = looser.getField object name := by
  unfold Machine.getField
  cases object.layout.slotOf? name with
  | none => rfl
  | some slot =>
    have hfield : machine.heap.field object.index slot = looser.heap.field object.index slot := by
      rw [Heap.field, Heap.field, Heap.load, Heap.load, hloosens.words]
    dsimp only
    rw [hfield, hloosens.decode_eq]

/-- A machine that has run nothing and one with larger limits. Its stack may begin with any number of cells. -/
theorem ofLimits {limits limits' : Limits} {sink sink' : Sink} (hstack : limits.maxStackWords ≤ limits'.maxStackWords)
    (hsameStack : ¬ slack.stack → limits.maxStackWords = limits'.maxStackWords)
    (hheap : limits.heapWords ≤ limits'.heapWords)
    (hsameHeap : ¬ slack.heap → limits.heapWords = limits'.heapWords) (hsink : Sink.Looser slack.sink sink sink')
    (globals : Globals) (nextIdentity : Nat) :
    Machine.Loosens slack (Machine.ofLimits limits globals sink nextIdentity)
      (Machine.ofLimits limits' globals sink' nextIdentity) where
  fits := Stack.fits_ofSizes _ _
  contents := rfl
  base := rfl
  limit := hstack
  sameLimit := hsameStack
  used := rfl
  words := rfl
  capacity := min_le_min hheap (Nat.le_refl _)
  sameCapacity hnot := congrArg (min · Word.indexLimit) (hsameHeap hnot)
  addressable := Nat.min_le_right _ _
  constants := rfl
  globals := rfl
  sink := hsink
  hosts := rfl
  nextIdentity := rfl

/-- The sink in which something on a machine ends. -/
def sinkAfter : EStateM.Result Fault Machine Value → Sink
  | .ok _ machine => machine.sink
  | .error _ machine => machine.sink

/-- A native function does the same to both machines, or the sink of the first one is full. -/
theorem applyNative (hloosens : machine.Loosens slack looser) (operation : Native) (receiver : Value)
    (arguments : List Value) :
    (∃ (value : Value) (next next' : Machine),
        Machine.applyNative operation receiver arguments machine = .ok value next ∧
        Machine.applyNative operation receiver arguments looser = .ok value next' ∧ next.Loosens slack next') ∨
      (∃ (fault : Fault) (next next' : Machine),
        Machine.applyNative operation receiver arguments machine = .error fault next ∧
        Machine.applyNative operation receiver arguments looser = .error fault next' ∧ next.Loosens slack next') ∨
      ∃ (fault : Fault) (next : Machine),
        Machine.applyNative operation receiver arguments machine = .error fault next ∧ slack.Excuses fault ∧
        next.sink.Precedes (sinkAfter (Machine.applyNative operation receiver arguments looser)) := by
  unfold Machine.applyNative
  cases operation with
  | builtin builtin =>
    have happlied := hloosens.sink.apply builtin arguments
    have hsame : ∀ {sink sink' : Sink}, Sink.Looser slack.sink sink sink' →
        Machine.Loosens slack { machine with sink := sink } { looser with sink := sink' } := by
      intro sink sink' hsink
      rw [← hloosens.globals, ← hloosens.hosts, ← hloosens.constants, ← hloosens.nextIdentity]
      exact hloosens.withParts _ _ _ _ hsink
    unfold Machine.onSink
    dsimp only
    generalize builtin.apply arguments machine.sink = result at happlied
    generalize builtin.apply arguments looser.sink = result' at happlied
    cases happlied with
    | ok hsink => exact Or.inl ⟨_, _, _, rfl, rfl, hsame hsink⟩
    | error hsink => exact Or.inr (Or.inl ⟨_, _, _, rfl, rfl, hsame hsink⟩)
    | cut hallowed hprecedes =>
      refine Or.inr (Or.inr ⟨_, _, rfl, hallowed, ?_⟩)
      cases result' <;> exact hprecedes
  | host position =>
    dsimp only
    rw [← hloosens.hosts]
    cases machine.hosts[position]? with
    | none => exact Or.inl ⟨_, _, _, rfl, rfl, hloosens⟩
    | some behaviour =>
      dsimp only
      cases behaviour receiver arguments with
      | ok value => exact Or.inl ⟨_, _, _, rfl, rfl, hloosens⟩
      | error fault => exact Or.inr (Or.inl ⟨_, _, _, rfl, rfl, hloosens⟩)

end Machine.Loosens

/-- An engine differs from another one in nothing but the cells of the stack that are not in use, and in larger
limits where these are allowed. -/
structure Engine.Loosens (slack : Slack) (engine looser : Engine) : Prop where
  machine : engine.machine.Loosens slack looser.machine
  strict : engine.strict = looser.strict

/-- How two engines come out of the same command: with the same answer and alike to look at, or the first one
with a fault that is excused, when its text is the beginning of that of the second one. -/
def Engine.EndAlike (slack : Slack) (answer : Answer) (next : Engine) (answer' : Answer) (next' : Engine) : Prop :=
  (answer = answer' ∧ next.machine.LooksLike next'.machine) ∨
    ∃ fault ∈ answer.fault?, slack.Excuses fault ∧ next.machine.sink.Precedes next'.machine.sink

namespace Engine.Loosens

variable {slack : Slack} {engine looser : Engine} {known : List Value} {closures : List Closure}
  {command : Command}

/-! ### Compilations -/

/-- Both engines compile a script alike. -/
theorem compile (hloosens : engine.Loosens slack looser) (script : Script) :
    (engine.compile script).1 = (looser.compile script).1 ∧
      (engine.compile script).2.Loosens slack (looser.compile script).2 := by
  have hmachine := hloosens.machine
  unfold Engine.compile Machine.compileWith
  dsimp only
  rw [← hloosens.strict, ← hmachine.constants, ← hmachine.nextIdentity]
  cases compileScript engine.strict script ⟨engine.machine.constants, engine.machine.nextIdentity⟩ with
  | ok routine workspace | error error workspace =>
    refine ⟨rfl, ?_, rfl⟩
    dsimp only
    rw [← hmachine.globals, ← hmachine.hosts]
    exact hmachine.withParts _ _ _ _ hmachine.sink

theorem prepared (hloosens : engine.Loosens slack looser) (command : Command) :
    (engine.prepared command).Loosens slack (looser.prepared command) := by
  unfold Engine.prepared
  cases command.script? with
  | none => exact hloosens
  | some script => exact (hloosens.compile script).2

theorem main?_eq (hloosens : engine.Loosens slack looser) (script : Script) :
    engine.main? script = looser.main? script := by
  rw [main?, main?, (hloosens.compile script).1]

/-- Both engines run the same function. -/
theorem runs?_eq (hloosens : engine.Loosens slack looser) (command : Command) :
    engine.runs? command = looser.runs? command := by
  cases command <;> unfold runs? <;> dsimp only
  case eval script => rw [hloosens.main?_eq]
  case evalText text => simp only [hloosens.main?_eq]
  case call name arguments => rw [hloosens.machine.globals]

/-! ### Commands that run no compiled code -/

/-- Both engines dump a script alike. -/
theorem dump_fst (hloosens : engine.Loosens slack looser) (script : Script) :
    (engine.dump script).1 = (looser.dump script).1 := by
  obtain ⟨hsame, hlater⟩ := hloosens.compile script
  have hconstants := hlater.machine.constants
  unfold Engine.dump
  dsimp only
  rw [hloosens.machine.constants]
  generalize engine.compile script = compiled at hsame hconstants ⊢
  generalize looser.compile script = compiled' at hsame hconstants ⊢
  obtain ⟨result, next⟩ := compiled
  obtain ⟨result', next'⟩ := compiled'
  dsimp only at hsame hconstants
  subst hsame
  cases result with
  | error error => rfl
  | ok main =>
    dsimp only
    rw [hconstants]

/-- Both engines call a native function of the host alike and keep looking alike, or the sink of the first one is
full. -/
theorem replies_native (hloosens : engine.Loosens slack looser) {name called : String} (arguments : List Value)
    {identity : Nat} {operation : Native}
    (hglobal : engine.machine.globals.lookup name = .function (.native identity called operation)) :
    ∃ (answer answer' : Answer) (next next' : Engine), engine.Replies (.call name arguments) answer next ∧
      looser.Replies (.call name arguments) answer' next' ∧
      ((answer = answer' ∧ next.Loosens slack next') ∨
        ∃ fault ∈ answer.fault?, slack.Excuses fault ∧ next.machine.sink.Precedes next'.machine.sink) := by
  have hglobal' := hloosens.machine.globals ▸ hglobal
  rcases hloosens.machine.applyNative operation .undefined arguments with
    ⟨value, next, next', happlied, happlied', hnext⟩ | ⟨fault, next, next', happlied, happlied', hnext⟩ |
    ⟨fault, next, happlied, hexcused, hprecedes⟩
  · exact ⟨_, _, _, _, .returned hglobal happlied, .returned hglobal' happlied', Or.inl ⟨rfl, hnext, hloosens.strict⟩⟩
  · exact ⟨_, _, _, _, .failed hglobal happlied, .failed hglobal' happlied', Or.inl ⟨rfl, hnext, hloosens.strict⟩⟩
  · cases happlied' : Machine.applyNative operation .undefined arguments looser.machine with
    | ok value next' =>
      rw [happlied'] at hprecedes
      exact ⟨_, _, _, _, .failed hglobal happlied, .returned hglobal' happlied',
        Or.inr ⟨fault, rfl, hexcused, hprecedes⟩⟩
    | error other next' =>
      rw [happlied'] at hprecedes
      exact ⟨_, _, _, _, .failed hglobal happlied, .failed hglobal' happlied',
        Or.inr ⟨fault, rfl, hexcused, hprecedes⟩⟩

/-- Both engines answer alike and keep looking alike, or the sink of the first one is full, when the command runs
no compiled code. -/
theorem replies_of_runs?_none (hloosens : engine.Loosens slack looser) (hruns : engine.runs? command = none) :
    ∃ (answer answer' : Answer) (next next' : Engine), engine.Replies command answer next ∧
      looser.Replies command answer' next' ∧
      ((answer = answer' ∧ next.Loosens slack next') ∨
        ∃ fault ∈ answer.fault?, slack.Excuses fault ∧ next.machine.sink.Precedes next'.machine.sink) := by
  have hmachine := hloosens.machine
  obtain ⟨answer, next, hreplies⟩ := exists_replies hruns
  cases id hreplies with
  | @refused command script error hscript hrefused =>
    obtain ⟨hsame, hlater⟩ := hloosens.compile script
    rw [hrefused] at hsame
    exact ⟨_, _, _, _, hreplies, .refused hscript (Prod.ext hsame.symm rfl), Or.inl ⟨rfl, hlater⟩⟩
  | unreadable hscript => exact ⟨_, _, _, _, hreplies, .unreadable hscript, Or.inl ⟨rfl, hloosens⟩⟩
  | @compiled script main haccepted =>
    obtain ⟨hsame, hlater⟩ := hloosens.compile script
    exact ⟨_, _, _, _, hreplies, .compiled (hsame.symm.trans haccepted), Or.inl ⟨rfl, hlater⟩⟩
  | @dumped script listing hdumped =>
    exact ⟨_, _, _, _, hreplies, .dumped ((hloosens.dump_fst script).symm.trans hdumped),
      Or.inl ⟨rfl, (hloosens.compile script).2⟩⟩
  | returned hglobal | failed hglobal => exact hloosens.replies_native _ hglobal
  | notFunction hglobal =>
    rw [hmachine.globals] at hglobal hreplies
    exact ⟨_, _, _, _, hreplies, .notFunction hglobal, Or.inl ⟨rfl, hloosens⟩⟩
  | lookup name =>
    rw [hmachine.globals] at hreplies
    exact ⟨_, _, _, _, hreplies, .lookup name, Or.inl ⟨rfl, hloosens⟩⟩
  | read hfield =>
    exact ⟨_, _, _, _, hreplies, .read ((hmachine.getField_eq _ _).symm.trans hfield), Or.inl ⟨rfl, hloosens⟩⟩
  | unread hfield =>
    exact ⟨_, _, _, _, hreplies, .unread ((hmachine.getField_eq _ _).symm.trans hfield), Or.inl ⟨rfl, hloosens⟩⟩
  | takePrinted =>
    refine ⟨_, _, _, _, hreplies, .takePrinted, Or.inl ⟨?_, ?_, hloosens.strict⟩⟩
    · exact congrArg Answer.text hmachine.sink.written
    · dsimp only [Machine.takePrinted]
      rw [← hmachine.globals, ← hmachine.hosts, ← hmachine.constants, ← hmachine.nextIdentity]
      exact hmachine.withParts _ _ _ _ ⟨rfl, hmachine.sink.budget, hmachine.sink.same⟩
  | register name value =>
    refine ⟨_, _, _, _, hreplies, .register name value, Or.inl ⟨rfl, ?_, hloosens.strict⟩⟩
    dsimp only [Machine.register]
    rw [← hmachine.globals, ← hmachine.hosts, ← hmachine.constants, ← hmachine.nextIdentity]
    exact hmachine.withParts _ _ _ _ hmachine.sink
  | newClass fields =>
    refine ⟨_, _, _, _, hreplies, .newClass fields, Or.inl ?_⟩
    dsimp only [Machine.newClass]
    rw [← hmachine.globals, ← hmachine.hosts, ← hmachine.constants, ← hmachine.nextIdentity]
    exact ⟨rfl, hmachine.withParts _ _ _ _ hmachine.sink, hloosens.strict⟩
  | newHostFunction name behaviour =>
    refine ⟨_, _, _, _, hreplies, .newHostFunction name behaviour, Or.inl ?_⟩
    dsimp only [Machine.newHostFunction]
    rw [← hmachine.globals, ← hmachine.hosts, ← hmachine.constants, ← hmachine.nextIdentity]
    exact ⟨rfl, hmachine.withParts _ _ _ _ hmachine.sink, hloosens.strict⟩

/-! ### Commands that run compiled code -/

/-- Both engines end alike when the command runs compiled code. -/
theorem answersAlike_of_runs? (hloosens : engine.Loosens slack looser)
    (hconsistent : engine.Consistent known closures) (hadmissible : command.Admissible known)
    (haddresses : engine.Addresses known command) (hsmall : engine.StaysSmall command)
    (hsmall' : looser.StaysSmall command) {routine : Routine} {arguments : List Value}
    (hruns : engine.runs? command = some (routine, arguments)) :
    ∃ (answer answer' : Answer) (next next' : Engine) (bound : Nat),
      (∀ steps : Nat, bound ≤ steps → engine.perform steps command = some (answer, next) ∧
        looser.perform steps command = some (answer', next')) ∧
      EndAlike slack answer next answer' next' := by
  obtain ⟨registry, world, -, hready, -⟩ := hconsistent.ready hadmissible haddresses hruns
  have hruns' := (hloosens.runs?_eq command).symm.trans hruns
  have hmachine := (hloosens.prepared command).machine
  have hconsistent' := hmachine.consistent hready.consistent
  have hrests := hready.rests
  have hrests' : (looser.prepared command).machine.Rests registry known (looser.prepared command).machine.stack.limit
      [] 0 (world.within (looser.prepared command).machine) (looser.prepared command).machine.constants :=
    ⟨hconsistent'.realizes, hconsistent'.world, hconsistent'.workspace.constants, hmachine.constants ▸ hrests.code⟩
  have hlike := hmachine.like_within hrests.realizes.shows hrests.visible
  obtain ⟨result, later, laterWorld, final, hinvoked, hanswers, hlater, -, -⟩ :=
    (hrests.exists_answer (by decide) hready.registered hready.values hready.size).resolve_right
      fun ⟨hlarge, start, henters, hcrowds⟩ ↦ hsmall.not_crowds hruns hlarge start henters hcrowds
  obtain ⟨result', later', laterWorld', final', hinvoked', hanswers', hlater', -, -⟩ :=
    (hrests'.exists_answer (by decide) hready.registered hready.values (hmachine.constants ▸ hready.size)).resolve_right
      fun ⟨hlarge, start, henters, hcrowds⟩ ↦ hsmall'.not_crowds hruns' hlarge start henters hcrowds
  have hexact := registry.exact_equality
  have hself : List.Forall₂ (Value.Like registry.equality) (.undefined :: arguments) (.undefined :: arguments) :=
    List.forall₂_same.mpr fun value hvalue ↦ Registry.like_self (hready.values value hvalue) hrests.visible.layouts
  have hends := hrests.endsAlike hrests' hready.registered hready.registered hready.values hready.values
    (hmachine.constants ▸ Registry.sound_equality hrests.entries hrests.code)
    (fun _ : True ↦ hmachine.constants) hlike ⟨rfl, hready.registered⟩ hself (hmachine.room 0) hanswers hanswers'
    ⟨fun _ ↦ hexact, fun hnot ↦ absurd trivial hnot⟩
  refine ⟨(Answer.ofOutcome (ofCall engine.strict (result, later))).1,
    (Answer.ofOutcome (ofCall engine.strict (result', later'))).1, ⟨later, engine.strict⟩, ⟨later', engine.strict⟩,
    CallStack.rankBase ^ ((looser.prepared command).machine.stack.limit + 1), fun steps hsteps ↦ ⟨?_, ?_⟩, ?_⟩
  · have hless := Nat.pow_le_pow_right (by decide : 0 < CallStack.rankBase) (Nat.succ_le_succ hmachine.limit)
    rw [perform_of_runs? hruns, hinvoked steps (Nat.le_trans hless hsteps)]
    cases result <;> rfl
  · rw [perform_of_runs? hruns', hinvoked' steps hsteps, ← hloosens.strict]
    cases result' <;> rfl
  · have hlooks : laterWorld.Like registry.equality slack laterWorld' → later.LooksLike later' :=
      fun hworld ↦ hworld.looksLike hexact hlater.visible.shaped hlater.realizes.shows hlater'.realizes.shows
    cases hends with
    | value hvalue hworld =>
      rw [hexact.eq hvalue]
      exact Or.inl ⟨rfl, hlooks hworld⟩
    | fault located hworld => exact Or.inl ⟨rfl, hlooks hworld⟩
    | @cut located _ _ _ hexcused hprecedes =>
      refine Or.inr ⟨located.fault, rfl, hexcused, ?_⟩
      rw [← hlater.realizes.shows.sink, ← hlater'.realizes.shows.sink] at hprecedes
      exact hprecedes

/-- Whatever is asked of them, both engines come out of it alike. -/
theorem answersAlike (hloosens : engine.Loosens slack looser) (hconsistent : engine.Consistent known closures)
    (hadmissible : command.Admissible known) (haddresses : engine.Addresses known command)
    (hsmall : engine.StaysSmall command) (hsmall' : looser.StaysSmall command) :
    ∃ (answer answer' : Answer) (next next' : Engine) (bound : Nat),
      (∀ steps : Nat, bound ≤ steps → engine.perform steps command = some (answer, next) ∧
        looser.perform steps command = some (answer', next')) ∧
      EndAlike slack answer next answer' next' := by
  cases hruns : engine.runs? command with
  | some run =>
    exact hloosens.answersAlike_of_runs? hconsistent hadmissible haddresses hsmall hsmall' hruns
  | none =>
    obtain ⟨answer, answer', next, next', hreplies, hreplies', hends⟩ := hloosens.replies_of_runs?_none hruns
    refine ⟨answer, answer', next, next', 0, fun steps _ ↦ ⟨hreplies.perform_eq steps, hreplies'.perform_eq steps⟩,
      hends.imp_left fun ⟨hsame, hlater⟩ ↦ ⟨hsame, ?_⟩⟩
    obtain ⟨⟨registry, world, hnext, -⟩, -⟩ := hconsistent.of_replies hadmissible hreplies
    exact hlater.machine.looksLike hnext

end Engine.Loosens

/-! ### Sessions -/

/-- Whatever a session is asked to do on, an engine with larger limits and any other cells that are not in use does
the same, unless the session is answered that a limit is exhausted which the other engine has larger. What it had
printed by then is the beginning of what the other engine prints. -/
theorem Session.limits_only_cut {slack : Slack} {engine looser : Engine} {known : List Value}
    {closures : List Closure} {command : Command} (hsession : Session engine known closures)
    (hloosens : engine.Loosens slack looser) (hadmissible : command.Admissible known)
    (haddresses : engine.Addresses known command) (hsmall : engine.StaysSmall command)
    (hsmall' : looser.StaysSmall command) :
    ∃ (answer answer' : Answer) (next next' : Engine) (bound : Nat),
      (∀ steps : Nat, bound ≤ steps → engine.perform steps command = some (answer, next) ∧
        looser.perform steps command = some (answer', next')) ∧
      Engine.EndAlike slack answer next answer' next' :=
  hloosens.answersAlike hsession.consistent hadmissible haddresses hsmall hsmall'

/-- A fresh engine with a larger stack, a larger heap and other cells to begin with makes the same cyclic object. -/
theorem Session.limits_only_cut_cyclic :
    ∃ looser : Engine, Engine.fresh.Loosens ⟨True, True, True⟩ looser ∧ looser.machine.stack.limit = 4294967296 ∧
      looser.machine.heap.capacity = Word.indexLimit ∧
      ∃ (answer answer' : Answer) (next next' : Engine) (bound : Nat),
        (∀ steps : Nat, bound ≤ steps → Engine.fresh.perform steps (.eval Script.cyclic) = some (answer, next) ∧
          looser.perform steps (.eval Script.cyclic) = some (answer', next')) ∧
        Engine.EndAlike ⟨True, True, True⟩ answer next answer' next' := by
  let looser : Engine := ⟨Machine.standard ⟨1073741824, 1, 4294967296⟩ (Sink.ofBudget none), false⟩
  have hloosens : Engine.fresh.Loosens ⟨True, True, True⟩ looser :=
    ⟨.ofLimits (by decide) (fun hnot ↦ absurd trivial hnot) (by decide) (fun hnot ↦ absurd trivial hnot)
      ⟨rfl, by rintro _ ⟨⟩, fun hnot ↦ absurd trivial hnot⟩ _ _, rfl⟩
  exact ⟨looser, hloosens, rfl, rfl, Session.limits_only_cut (.standard _ _ _) hloosens trivial Engine.addresses_cyclic
    (Engine.staysSmall_fresh _) (fun hlarge ↦ absurd hlarge (by decide))⟩

end ScriptMachine
