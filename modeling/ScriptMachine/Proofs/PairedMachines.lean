import ScriptMachine.Proofs.Observation
import ScriptMachine.Proofs.TwinMachines

/-!
# Machines that are paired

A host asks two machines for the same and keeps what it is answered in a `Transcript`, one pair of answers after the
other. The machines are paired by a matching of their identities (`Machine.Paired`) when the matching fits them and
makes their worlds and everything in the transcript alike. They stay paired when either one compiles something
(`Machine.Paired.grow`), when both install alike functions of the host, and when both run functions that stand for
each other (`Machine.Paired.invokeRoutine`).
-/

set_option autoImplicit false
set_option relaxedAutoImplicit false

namespace ScriptMachine

/-! ### Transcripts -/

/-- Two answers hand out alike values, or are the same and hand out none. -/
inductive Answer.Like (likeness : Likeness) : Answer → Answer → Prop where
  | value {value value' : Value} (hvalue : value.Like likeness value') : Like likeness (.value value) (.value value')
  | same {answer : Answer} (hnone : answer.given = []) : Like likeness answer answer

/-- Answers stay alike when more stands for each other. -/
theorem Answer.Like.mono {likeness larger : Likeness} (hwithin : likeness.Within larger) {answer answer' : Answer}
    (hlike : answer.Like likeness answer') : answer.Like larger answer' := by
  cases hlike with
  | value hvalue => exact .value (hvalue.mono hwithin)
  | same hnone => exact .same hnone

/-- The answer that a call comes to. -/
def Answer.ofResult : Except LocatedFault Value → Answer
  | .ok found => .value found
  | .error located => .refused (.runtime located)

/-- The pairs of answers that a host got from two machines, the most recent ones first. -/
abbrev Transcript :=
  List (Answer × Answer)

/-- All pairs of answers are alike. -/
def Transcript.Alike (transcript : Transcript) (likeness : Likeness) : Prop :=
  ∀ answers ∈ transcript, answers.1.Like likeness answers.2

theorem Transcript.Alike.mono {transcript : Transcript} {likeness larger : Likeness}
    (hwithin : likeness.Within larger) (halike : transcript.Alike likeness) : transcript.Alike larger :=
  fun answers hanswers ↦ (halike answers hanswers).mono hwithin

/-- Two functions that a host installs in two machines answer alike, whatever stands for each other, as long as the
host got alike answers so far. -/
def HostFunction.Corresponds (transcript : Transcript) (behaviour behaviour' : HostFunction) : Prop :=
  ∀ likeness : Likeness, likeness.Faithful → transcript.Alike likeness → behaviour.Like likeness behaviour'

/-- Functions of the host go on to correspond when there are more answers. -/
theorem HostFunction.Corresponds.mono {transcript later : Transcript} (hsubset : transcript ⊆ later)
    {behaviour behaviour' : HostFunction} (hcorresponds : behaviour.Corresponds transcript behaviour') :
    behaviour.Corresponds later behaviour' :=
  fun likeness hfaithful halike ↦ hcorresponds likeness hfaithful fun answers hanswers ↦
    halike answers (hsubset hanswers)

/-! ### Paired machines -/

/-- What there is to know about a consistent machine: the values that it has handed out, the functions that were
compiled, the registry of what has an identity, and the world that it shows. -/
structure Background where
  known : List Value
  closures : List Closure
  registry : Registry
  world : World

/-- What is handed out becomes known. -/
def Background.handOut (background : Background) (answer : Answer) : Background :=
  { background with known := answer.given ++ background.known }

/-- A machine is consistent with what is known about it. -/
def Machine.StandsFor (machine : Machine) (background : Background) : Prop :=
  machine.Consistent background.known background.closures background.registry background.world

/-- What something comes to that leaves a world behind. -/
def World.ending (world : World) : Except Fault Value → EStateM.Result Fault World Value
  | .ok value => .ok value world
  | .error fault => .error fault world

theorem World.state_ending (world : World) (result : Except Fault Value) : state (world.ending result) = world := by
  cases result <;> rfl

/-- A machine answers a call of a native function with what the function comes to in the world. -/
theorem Machine.StandsFor.invokeNative {machine : Machine} {background : Background}
    (hstands : machine.StandsFor background) (identity : Nat) (name : String) (operation : Native)
    {arguments : List Value}
    (hvalues : ∀ value ∈ arguments, value.Valid background.registry background.world.store.records) :
    ∃ (result : Except Fault Value) (next : Machine) (world : World),
      (∀ steps : Nat, machine.invoke steps (.native identity name operation) .undefined arguments =
        some (result.mapError (.atEntry · name), next)) ∧
      World.applyNative operation .undefined arguments background.world = world.ending result ∧
      next.Consistent background.known background.closures background.registry world ∧
      next.constants = machine.constants ∧ next.stack.limit = machine.stack.limit ∧
      next.nextIdentity = machine.nextIdentity ∧
      ∀ value : Value, result = .ok value → value.Valid background.registry world.store.records := by
  have hreceiver : Value.Valid background.registry background.world.store.records .undefined := trivial
  rcases Machine.Consistent.applyNative hstands operation hreceiver hvalues with
    ⟨value, next, world, happlied, hworld, hconsistent, hconstants, hvalue⟩ |
    ⟨fault, next, world, happlied, hworld, hconsistent, hconstants, -⟩
  · obtain ⟨sink, rfl⟩ := Machine.exists_of_applyNative (Or.inl ⟨value, happlied⟩)
    refine ⟨.ok value, _, world, fun steps ↦ ?_, hworld, hconsistent, hconstants, rfl, rfl, fun found hfound ↦ ?_⟩
    · rw [Machine.invoke, happlied]
      rfl
    · rw [← Except.ok.inj hfound]
      exact hvalue
  · obtain ⟨sink, rfl⟩ := Machine.exists_of_applyNative (Or.inr ⟨fault, happlied⟩)
    refine ⟨.error fault, _, world, fun steps ↦ ?_, hworld, hconsistent, hconstants, rfl, rfl, by rintro _ ⟨⟩⟩
    rw [Machine.invoke, happlied]
    rfl

/-- What stands for each other between two machines whose identities are matched. -/
def Matching.between (matching : Matching) (background background' : Background) : Likeness :=
  matching.likeness background.registry background'.registry

/-- Two machines are paired by a matching of their identities that makes their worlds and all answers so far alike. -/
structure Machine.Paired (matching : Matching) (transcript : Transcript) (machine machine' : Machine)
    (background background' : Background) : Prop where
  left : machine.StandsFor background
  right : machine'.StandsFor background'
  limit : machine.stack.limit = machine'.stack.limit
  fits : matching.Fits background.registry background'.registry background.closures background'.closures
    machine.nextIdentity machine'.nextIdentity
  world : background.world.Like (matching.between background background') .none background'.world
  hosts : List.Forall₂ (HostFunction.Corresponds transcript) background.world.hosts.toList
    background'.world.hosts.toList
  transcript : transcript.Alike (matching.between background background')

namespace Machine.Paired

variable {matching : Matching} {transcript : Transcript} {machine machine' : Machine}
  {background background' : Background}

theorem faithful (hpaired : Machine.Paired matching transcript machine machine' background background') :
    (matching.between background background').Faithful :=
  hpaired.fits.oneToOne.faithful _ _

/-! ### Answers -/

/-- Machines stay paired when they hand out alike valid values. -/
theorem handOut (hpaired : Machine.Paired matching transcript machine machine' background background')
    {answer answer' : Answer} (hlike : answer.Like (matching.between background background') answer')
    (hgiven : ∀ value ∈ answer.given, value.Valid background.registry background.world.store.records)
    (hgiven' : ∀ value ∈ answer'.given, value.Valid background'.registry background'.world.store.records) :
    Machine.Paired matching ((answer, answer') :: transcript) machine machine' (background.handOut answer)
      (background'.handOut answer') where
  left := Machine.Consistent.handOut hpaired.left hgiven
  right := Machine.Consistent.handOut hpaired.right hgiven'
  limit := hpaired.limit
  fits := hpaired.fits
  world := hpaired.world
  hosts := hpaired.hosts.imp fun _ _ hhost ↦ hhost.mono (List.subset_cons_self _ _)
  transcript := List.forall_mem_cons.mpr ⟨hlike, hpaired.transcript⟩

/-- Machines stay paired when both give the same answer that hands out nothing. -/
theorem answer (hpaired : Machine.Paired matching transcript machine machine' background background') {answer : Answer}
    (hnone : answer.given = []) :
    Machine.Paired matching ((answer, answer) :: transcript) machine machine' (background.handOut answer)
      (background'.handOut answer) :=
  hpaired.handOut (.same hnone) (hnone ▸ List.forall_mem_nil _) (hnone ▸ List.forall_mem_nil _)

/-! ### Compilations -/

/-- Machines stay paired when there are more identities, as long as they show the same worlds. -/
theorem grow (hpaired : Machine.Paired matching transcript machine machine' background background')
    {larger : Matching} {next next' : Machine} {known known' : List Value} {closures closures' : List Closure}
    {registry registry' : Registry} (hleft : next.Consistent known closures registry background.world)
    (hright : next'.Consistent known' closures' registry' background'.world)
    (hlimit : next.stack.limit = machine.stack.limit) (hlimit' : next'.stack.limit = machine'.stack.limit)
    (hfits : larger.Fits registry registry' closures closures' next.nextIdentity next'.nextIdentity)
    (hlarger : ∀ identity identity' : Nat, matching identity identity' → larger identity identity')
    (hextends : background.registry.Extends registry) (hextends' : background'.registry.Extends registry') :
    Machine.Paired larger transcript next next' ⟨known, closures, registry, background.world⟩
      ⟨known', closures', registry', background'.world⟩ := by
  have hwithin := Matching.within_likeness hlarger hextends hextends'
  have halike := hpaired.transcript.mono hwithin
  have hfaithful := hfits.oneToOne.faithful registry registry'
  exact ⟨hleft, hright, by rw [hlimit, hlimit', hpaired.limit], hfits,
    hpaired.world.mono hwithin (hpaired.hosts.imp fun _ _ hhost ↦ hhost _ hfaithful halike), hpaired.hosts, halike⟩

/-! ### Changes of the worlds -/

/-- Machines stay paired when their worlds change alike and install no functions of the host. -/
theorem withWorlds (hpaired : Machine.Paired matching transcript machine machine' background background')
    {next next' : Machine} {world world' : World}
    (hleft : next.Consistent background.known background.closures background.registry world)
    (hright : next'.Consistent background'.known background'.closures background'.registry world')
    (hlimit : next.stack.limit = machine.stack.limit) (hlimit' : next'.stack.limit = machine'.stack.limit)
    (hidentity : next.nextIdentity = machine.nextIdentity) (hidentity' : next'.nextIdentity = machine'.nextIdentity)
    (hhosts : world.hosts = background.world.hosts) (hhosts' : world'.hosts = background'.world.hosts)
    (hworld : world.Like (matching.between background background') .none world') :
    Machine.Paired matching transcript next next' { background with world := world }
      { background' with world := world' } where
  left := hleft
  right := hright
  limit := by rw [hlimit, hlimit', hpaired.limit]
  fits := by
    rw [hidentity, hidentity']
    exact hpaired.fits
  world := hworld
  hosts := by
    dsimp only
    rw [hhosts, hhosts']
    exact hpaired.hosts
  transcript := hpaired.transcript

/-! ### Classes and functions of the host -/

/-- Machines stay paired when their host makes the same class for both. -/
theorem newClass (hpaired : Machine.Paired matching transcript machine machine' background background')
    (fields : List String) :
    let larger := matching.extend machine.nextIdentity machine'.nextIdentity 1
    let registry := Lowering.withLayout background.registry (machine.newClass fields).1
    let registry' := Lowering.withLayout background'.registry (machine'.newClass fields).1
    Machine.Paired larger transcript (machine.newClass fields).2 (machine'.newClass fields).2
        { background with registry := registry } { background' with registry := registry' } ∧
      (larger.likeness registry registry').layouts (machine.newClass fields).1 (machine'.newClass fields).1 := by
  have hgrows : background.registry.GrowsBy (Lowering.withLayout background.registry (machine.newClass fields).1) [] :=
    ⟨Lowering.extends_withLayout hpaired.left.workspace.fresh.2, fun _ _ hroutine ↦ Or.inl hroutine⟩
  have hgrows' : background'.registry.GrowsBy
      (Lowering.withLayout background'.registry (machine'.newClass fields).1) [] :=
    ⟨Lowering.extends_withLayout hpaired.right.workspace.fresh.2, fun _ _ hroutine ↦ Or.inl hroutine⟩
  exact ⟨hpaired.grow (hpaired.left.newClass fields) (hpaired.right.newClass fields) rfl rfl
    (hpaired.fits.extend hgrows hgrows' (.nil _ 1) (.nil _ 1) .nil hpaired.left.workspace.functions
      hpaired.right.workspace.functions) (fun _ _ hold ↦ Or.inl hold) hgrows.toExtends hgrows'.toExtends,
    Matching.along_extend.last, rfl⟩

/-- Machines stay paired when functions of the host are installed that correspond. -/
theorem newHostFunction (hpaired : Machine.Paired matching transcript machine machine' background background')
    (name : String) {behaviour behaviour' : HostFunction} (hbehaviour : behaviour.Corresponds transcript behaviour')
    (hpolite : HostFunction.Polite background.known behaviour)
    (hpolite' : HostFunction.Polite background'.known behaviour') :
    let larger := matching.extend machine.nextIdentity machine'.nextIdentity 1
    let registry := Lowering.withFunction background.registry (machine.newHostFunction name behaviour).1
    let registry' := Lowering.withFunction background'.registry (machine'.newHostFunction name behaviour').1
    Machine.Paired larger transcript (machine.newHostFunction name behaviour).2
        (machine'.newHostFunction name behaviour').2
        ⟨background.known, background.closures, registry,
          { background.world with hosts := background.world.hosts.push behaviour }⟩
        ⟨background'.known, background'.closures, registry',
          { background'.world with hosts := background'.world.hosts.push behaviour' }⟩ ∧
      (larger.likeness registry registry').functions (machine.newHostFunction name behaviour).1
        (machine'.newHostFunction name behaviour').1 := by
  have hgrows : background.registry.GrowsBy
      (Lowering.withFunction background.registry (machine.newHostFunction name behaviour).1) [] :=
    ⟨Lowering.extends_withFunction hpaired.left.workspace.fresh.1,
      fun _ _ hroutine ↦ Or.inl (Registry.functions_of_withNative hroutine)⟩
  have hgrows' : background'.registry.GrowsBy
      (Lowering.withFunction background'.registry (machine'.newHostFunction name behaviour').1) [] :=
    ⟨Lowering.extends_withFunction hpaired.right.workspace.fresh.1,
      fun _ _ hroutine ↦ Or.inl (Registry.functions_of_withNative hroutine)⟩
  have hfits := hpaired.fits.extend hgrows hgrows' (.nil _ 1) (.nil _ 1) .nil hpaired.left.workspace.functions
    hpaired.right.workspace.functions
  have hwithin := Matching.within_likeness
    (fun _ _ hold ↦ Or.inl hold : ∀ identity identity' : Nat, matching identity identity' →
      matching.extend machine.nextIdentity machine'.nextIdentity 1 identity identity')
    hgrows.toExtends hgrows'.toExtends
  have halike := hpaired.transcript.mono hwithin
  have hfaithful := hfits.oneToOne.faithful
    (Lowering.withFunction background.registry (machine.newHostFunction name behaviour).1)
    (Lowering.withFunction background'.registry (machine'.newHostFunction name behaviour').1)
  have hworld := hpaired.world.mono hwithin (hpaired.hosts.imp fun _ _ hhost ↦ hhost _ hfaithful halike)
  have hhosts : List.Forall₂ (HostFunction.Corresponds transcript) (background.world.hosts.push behaviour).toList
      (background'.world.hosts.push behaviour').toList := by
    rw [Array.toList_push, Array.toList_push]
    exact List.rel_append hpaired.hosts (.cons hbehaviour .nil)
  refine ⟨⟨hpaired.left.newHostFunction name hpolite, hpaired.right.newHostFunction name hpolite', hpaired.limit, hfits,
    ⟨hworld.globals, hworld.bound, hworld.records, hworld.capacity, hworld.sameCapacity, hworld.sink,
      hhosts.imp fun _ _ hhost ↦ hhost _ hfaithful halike⟩, hhosts, halike⟩,
    Matching.along_extend.last, if_pos rfl, if_pos rfl, ?_⟩
  -- both have installed as many functions before
  have hsize := hpaired.hosts.length_eq
  rw [← hpaired.left.realizes.shows.hosts, ← hpaired.right.realizes.shows.hosts, Array.length_toList,
    Array.length_toList] at hsize
  unfold Machine.newHostFunction
  rw [hsize]
  exact .native _ _ _ _

/-! ### Calls -/

/-- Machines that are paired answer alike when they call native functions with the same operation, and stay paired. -/
theorem invokeNative (hpaired : Machine.Paired matching transcript machine machine' background background')
    (identity identity' : Nat) (name : String) (operation : Native) {arguments arguments' : List Value}
    (harguments : List.Forall₂ (Value.Like (matching.between background background')) arguments arguments')
    (hvalues : ∀ value ∈ arguments, value.Valid background.registry background.world.store.records)
    (hvalues' : ∀ value ∈ arguments', value.Valid background'.registry background'.world.store.records) :
    ∃ (outcome outcome' : CallOutcome) (world world' : World),
      (∀ steps : Nat, machine.invoke steps (.native identity name operation) .undefined arguments = some outcome ∧
        machine'.invoke steps (.native identity' name operation) .undefined arguments' = some outcome') ∧
      outcome.2.constants = machine.constants ∧ outcome'.2.constants = machine'.constants ∧
      Machine.Paired matching ((.ofResult outcome.1, .ofResult outcome'.1) :: transcript) outcome.2 outcome'.2
        ({ background with world := world }.handOut (.ofResult outcome.1))
        ({ background' with world := world' }.handOut (.ofResult outcome'.1)) := by
  obtain ⟨result, next, world, hinvoked, happlied, hconsistent, hconstants, hlimit, hidentity, hvalue⟩ :=
    hpaired.left.invokeNative identity name operation hvalues
  obtain ⟨result', next', world', hinvoked', happlied', hconsistent', hconstants', hlimit', hidentity', hvalue'⟩ :=
    hpaired.right.invokeNative identity' name operation hvalues'
  refine ⟨_, _, world, world', fun steps ↦ ⟨hinvoked steps, hinvoked' steps⟩, hconstants, hconstants', ?_⟩
  have hhosts := (World.Changes.native none operation .undefined arguments : background.world.Changes _ _).hosts_eq
  have hhosts' := (World.Changes.native none operation .undefined arguments' : background'.world.Changes _ _).hosts_eq
  have halike := hpaired.world.applyNative hpaired.faithful operation .undefined harguments
  rw [happlied, World.state_ending] at hhosts
  rw [happlied', World.state_ending] at hhosts'
  rw [happlied, happlied'] at halike
  have hworlds := hpaired.withWorlds hconsistent hconsistent' hlimit hlimit' hidentity hidentity' hhosts hhosts'
  cases result with
  | ok value =>
    cases result' with
    | ok value' =>
      cases halike with
      | ok hworld hlike =>
        refine (hworlds hworld).handOut (.value hlike) (fun found hgiven ↦ ?_) fun found hgiven ↦ ?_
        · rw [List.mem_singleton.mp hgiven]
          exact hvalue _ rfl
        · rw [List.mem_singleton.mp hgiven]
          exact hvalue' _ rfl
    | error fault' => cases halike
  | error fault =>
    cases result' with
    | ok value' =>
      cases halike with
      | cut hexcused => exact absurd hexcused (Slack.not_excuses_none _)
    | error fault' =>
      cases halike with
      | error _ hworld => exact (hworlds hworld).answer rfl
      | cut hexcused => exact absurd hexcused (Slack.not_excuses_none _)

/-- Machines that are paired answer alike when they run functions that stand for each other, and stay paired as long
as words can number their constants. -/
theorem invokeRoutine (hpaired : Machine.Paired matching transcript machine machine' background background')
    {routine routine' : Routine} {arguments arguments' : List Value}
    (hready : machine.Ready background.known background.closures background.registry background.world routine arguments)
    (hready' : machine'.Ready background'.known background'.closures background'.registry background'.world routine'
      arguments')
    (hcode : ∀ (identity : Nat) (found : Routine), background.registry.functions identity = some (.compiled found) →
      found.unit.code.size < 4294967296)
    (hfunctions : (matching.between background background').functions (.compiled routine) (.compiled routine'))
    (harguments : List.Forall₂ (Value.Like (matching.between background background')) arguments arguments')
    (hcalm : 4294967296 < machine.stack.limit → ∀ start : Activity,
      machine.Enters routine .undefined arguments start → ¬ start.Crowds)
    (hcalm' : 4294967296 < machine'.stack.limit → ∀ start : Activity,
      machine'.Enters routine' .undefined arguments' start → ¬ start.Crowds) :
    ∃ (outcome outcome' : CallOutcome) (bound : Nat),
      (∀ steps : Nat, bound ≤ steps → machine.invokeRoutine steps routine .undefined arguments = some outcome ∧
        machine'.invokeRoutine steps routine' .undefined arguments' = some outcome') ∧
      (machine.constants.box (.function (.compiled routine))).2.Extends outcome.2.constants ∧
      (machine'.constants.box (.function (.compiled routine'))).2.Extends outcome'.2.constants ∧
      (outcome.2.constants.size ≤ Word.indexLimit → outcome'.2.constants.size ≤ Word.indexLimit →
        ∃ world world' : World,
          Machine.Paired matching ((.ofResult outcome.1, .ofResult outcome'.1) :: transcript) outcome.2 outcome'.2
            ({ background with world := world }.handOut (.ofResult outcome.1))
            ({ background' with world := world' }.handOut (.ofResult outcome'.1))) := by
  obtain ⟨result, later, world, final, hinvoked, hanswers, hlater, hextends, hvalue⟩ :=
    (hready.rests.exists_answer (by decide) hready.registered hready.values hready.size).resolve_right
      fun ⟨hlarge, start, henters, hcrowds⟩ ↦ hcalm hlarge start henters hcrowds
  obtain ⟨result', later', world', final', hinvoked', hanswers', hlater', hextends', hvalue'⟩ :=
    (hready'.rests.exists_answer (by decide) hready'.registered hready'.values hready'.size).resolve_right
      fun ⟨hlarge, start, henters, hcrowds⟩ ↦ hcalm' hlarge start henters hcrowds
  rw [← hpaired.limit] at hinvoked'
  have hidentity := Machine.invokeRoutine_nextIdentity (hinvoked _ (Nat.le_refl _))
  have hidentity' := Machine.invokeRoutine_nextIdentity (hinvoked' _ (Nat.le_refl _))
  obtain ⟨hconsistent, hgrown⟩ := hready.of_rests hlater hextends hidentity
  obtain ⟨hconsistent', hgrown'⟩ := hready'.of_rests hlater' hextends' hidentity'
  refine ⟨(result, later), (result', later'), _, fun steps hsteps ↦ ⟨hinvoked steps hsteps, hinvoked' steps hsteps⟩,
    hgrown, hgrown', fun hsize hsize' ↦ ⟨world, world', ?_⟩⟩
  have hfinal : later.constants = final := hlater.realizes.constants
  have hfinal' : later'.constants = final' := hlater'.realizes.constants
  have hbefore := Nat.le_trans (machine.constants.box_extends (.function (.compiled routine))).size_le hready.size
  have hbefore' := Nat.le_trans (machine'.constants.box_extends (.function (.compiled routine'))).size_le hready'.size
  have hends := hready.rests.endsAlike hready'.rests hready.registered hready'.registered hready.values hready'.values
    (hpaired.fits.sound hpaired.left hpaired.right hbefore hbefore' hcode) False.elim hpaired.world hfunctions
    (.cons .undefined harguments)
    ⟨fun _ hfits ↦ hpaired.limit ▸ hfits, fun _ ↦ ⟨hpaired.limit, rfl⟩⟩ hanswers hanswers'
    ⟨False.elim, fun _ ↦ ⟨hfinal ▸ hsize, hfinal' ▸ hsize'⟩⟩
  have hworlds := fun hlike ↦ hpaired.withWorlds hconsistent hconsistent' hlater.realizes.limit hlater'.realizes.limit
    hidentity hidentity' hanswers.hosts_eq hanswers'.hosts_eq hlike
  cases hends with
  | value hlike hworld =>
    refine (hworlds hworld).handOut (.value hlike) (fun value hgiven ↦ ?_) fun value hgiven ↦ ?_
    · rw [List.mem_singleton.mp hgiven]
      exact hvalue _ rfl
    · rw [List.mem_singleton.mp hgiven]
      exact hvalue' _ rfl
  | fault located hworld => exact (hworlds hworld).answer rfl
  | cut hexcused => exact absurd hexcused (Slack.not_excuses_none _)

end Machine.Paired

end ScriptMachine
