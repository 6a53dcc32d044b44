import ScriptMachine.Proofs.CompiledScripts
import ScriptMachine.Proofs.PairedMachines

/-!
# Engines that are paired

Two engines are paired when their machines are and both compile strictly or neither does (`Engine.Paired`). A command
is silent when it runs no code: it compiles a script or dumps it, or it is to evaluate something that is refused
(`Command.Silent`). Engines stay paired when one of them carries a silent command out (`Engine.Paired.insert`), and when
both carry out commands that correspond (`Command.Corresponds`): then they answer alike (`Engine.Paired.perform`).
-/

set_option autoImplicit false
set_option relaxedAutoImplicit false

namespace ScriptMachine

/-! ### What a host asks two engines for -/

/-- A host has the same value of two engines: one without identity, or what both have answered at a time. -/
inductive Value.Corresponds (transcript : Transcript) : Value → Value → Prop where
  | scalar {value : Value} (hscalar : value.IsScalar) : Corresponds transcript value value
  | answered {value value' : Value} (hanswers : (.value value, .value value') ∈ transcript) :
      Corresponds transcript value value'

/-- A host asks two engines for the same. -/
inductive Command.Corresponds (transcript : Transcript) : Command → Command → Prop where
  | eval (script : Script) : Corresponds transcript (.eval script) (.eval script)
  | evalText (text : String) : Corresponds transcript (.evalText text) (.evalText text)
  | call (name : String) {arguments arguments' : List Value}
      (harguments : List.Forall₂ (Value.Corresponds transcript) arguments arguments') :
      Corresponds transcript (.call name arguments) (.call name arguments')
  | register (name : String) {value value' : Value} (hvalue : value.Corresponds transcript value') :
      Corresponds transcript (.register name value) (.register name value')
  | lookup (name : String) : Corresponds transcript (.lookup name) (.lookup name)
  | getField {object object' : ObjectRef} (name : String)
      (hobject : (Value.object object).Corresponds transcript (.object object')) :
      Corresponds transcript (.getField object name) (.getField object' name)
  | newClass (fields : List String) : Corresponds transcript (.newClass fields) (.newClass fields)
  | newHostFunction (name : String) {behaviour behaviour' : HostFunction}
      (hbehaviour : behaviour.Corresponds transcript behaviour') :
      Corresponds transcript (.newHostFunction name behaviour) (.newHostFunction name behaviour')
  | takePrinted : Corresponds transcript .takePrinted .takePrinted

/-- A command runs no code: it compiles a script or dumps it, or it is refused. -/
inductive Command.Silent (engine : Engine) : Command → Prop where
  | compile (script : Script) : Silent engine (.compile script)
  | dump (script : Script) : Silent engine (.dump script)
  | rejected {script : Script} (hmain : engine.main? script = none) : Silent engine (.eval script)
  | rejectedText {text : String} {script : Script} (hscript : Script.ofText? text = some script)
      (hmain : engine.main? script = none) : Silent engine (.evalText text)
  | invalidText {text : String} (hscript : Script.ofText? text = none) : Silent engine (.evalText text)

/-- A session may go on with a command. -/
structure Engine.Admits (engine : Engine) (known : List Value) (command : Command) : Prop where
  admissible : command.Admissible known
  addresses : engine.Addresses known command
  small : engine.StaysSmall command

/-- What a host has of two engines is alike when their answers are. -/
theorem Value.Corresponds.like {transcript : Transcript} {value value' : Value}
    (hcorresponds : value.Corresponds transcript value') {likeness : Likeness} (halike : transcript.Alike likeness) :
    value.Like likeness value' := by
  cases hcorresponds with
  | scalar hscalar => exact hscalar.like
  | answered hanswers =>
    cases halike _ hanswers with
    | value hvalue => exact hvalue
    | same hnone => cases hnone

/-! ### Engines and what is known about them -/

/-- An engine is consistent with what is known about it, and all compiled functions are among its constants or were
handed out. -/
structure Engine.StandsFor (engine : Engine) (background : Background) : Prop where
  machine : engine.machine.StandsFor background
  listed : background.registry.Listed (engine.machine.constants.entries.toList ++ background.known)

/-- An engine has done nothing but compile. -/
structure Engine.Compiles (engine next : Engine) (background later : Background) : Prop where
  strict : next.strict = engine.strict
  limit : next.machine.stack.limit = engine.machine.stack.limit
  stands : next.StandsFor later
  world : later.world = background.world
  identities : engine.machine.nextIdentity ≤ next.machine.nextIdentity
  grows : ∃ (added : List Closure) (count : Nat), later.closures = added ++ background.closures ∧
    Closure.Numbered engine.machine.nextIdentity count added ∧ background.registry.GrowsBy later.registry added

/-- Two engines are paired when their machines are and they compile in the same way. -/
structure Engine.Paired (matching : Matching) (transcript : Transcript) (engine engine' : Engine)
    (background background' : Background) : Prop where
  machines : Machine.Paired matching transcript engine.machine engine'.machine background background'
  strict : engine.strict = engine'.strict
  left : engine.StandsFor background
  right : engine'.StandsFor background'

namespace Engine

variable {engine engine' : Engine} {background background' : Background} {command : Command}

theorem Compiles.refl (hstands : engine.StandsFor background) : engine.Compiles engine background background :=
  ⟨rfl, rfl, hstands, rfl, Nat.le_refl _, [], 0, rfl, .nil _ _, .refl _ _⟩

/-- An engine that compiles a script does nothing but that. -/
theorem StandsFor.compile (hstands : engine.StandsFor background) (script : Script) :
    ∃ later : Background, later.known = background.known ∧
      engine.Compiles (engine.compile script).2 background later := by
  obtain ⟨registry, hgrows, hmachine, hlisted, hnext, -⟩ := hstands.machine.compile hstands.listed script
  exact ⟨⟨background.known, script.closures engine.machine.nextIdentity ++ background.closures, registry,
    background.world⟩, rfl, rfl, congrArg Stack.limit (@prepared_stack engine (.compile script)),
    ⟨hmachine, hlisted⟩, rfl, hnext, _, _, rfl, script.numbered_closures _, hgrows⟩

/-- A silent command runs no code. -/
theorem runs?_of_silent (hsilent : command.Silent engine) : engine.runs? command = none := by
  cases hsilent with
  | compile | dump => rfl
  | rejected hmain =>
    rw [runs?, hmain]
    rfl
  | rejectedText hscript hmain =>
    rw [runs?, hscript, Option.bind_some, hmain]
    rfl
  | invalidText hscript =>
    rw [runs?, hscript]
    rfl

/-- An engine that hands the function of a script out does nothing but compile. -/
theorem StandsFor.compiled (hstands : engine.StandsFor background) {script : Script} {main : Routine}
    (haccepted : (engine.compile script).1 = .ok main) :
    ∃ later : Background, later.known = [.function (.compiled main)] ++ background.known ∧
      engine.Compiles (engine.compile script).2 background later := by
  obtain ⟨_, -, -, -, hnext, hmain⟩ := hstands.machine.compile hstands.listed script
  obtain ⟨latest, hgrows, hmachine, hregistered, hlisted⟩ := hmain main haccepted
  have hhanded : Machine.Consistent (engine.compile script).2.machine
      ([.function (.compiled main)] ++ background.known)
      (script.closures engine.machine.nextIdentity ++ background.closures) latest background.world :=
    hmachine.handOut (List.forall_mem_singleton.mpr hregistered)
  exact ⟨⟨_, _, latest, background.world⟩, rfl, rfl, congrArg Stack.limit (@prepared_stack engine (.compile script)),
    ⟨hhanded, hlisted.handOut_main⟩, rfl, hnext, _, _, rfl, script.numbered_closures _, hgrows⟩

/-- An engine does nothing but compile when it carries a silent command out. -/
theorem StandsFor.perform_silent (hstands : engine.StandsFor background) (hsilent : command.Silent engine) :
    ∃ (answer : Answer) (later : Background), later.known = answer.given ++ background.known ∧
      (∀ steps : Nat, engine.perform steps command = some (answer, engine.prepared command)) ∧
      engine.Compiles (engine.prepared command) background later := by
  obtain ⟨answer, next, hreplies⟩ := exists_replies (runs?_of_silent hsilent)
  cases id hreplies with
  | @refused command script error hscript =>
    obtain ⟨later, hknown, hcompiles⟩ := hstands.compile script
    rw [prepared_eq hscript]
    exact ⟨.refused (.compile error), later, hknown, hreplies.perform_eq, hcompiles⟩
  | unreadable hscript =>
    rw [prepared, Command.script?, hscript]
    exact ⟨.refused .invalidTree, background, rfl, hreplies.perform_eq, .refl hstands⟩
  | @compiled script main haccepted =>
    obtain ⟨later, hknown, hcompiles⟩ := hstands.compiled haccepted
    exact ⟨.value (.function (.compiled main)), later, hknown, hreplies.perform_eq, hcompiles⟩
  | @dumped script listing =>
    obtain ⟨later, hknown, hcompiles⟩ := hstands.compile script
    exact ⟨.text listing, later, hknown, hreplies.perform_eq, hcompiles⟩
  | _ => cases hsilent

namespace Paired

variable {matching : Matching} {transcript : Transcript}

/-- Engines stay paired when each of them does nothing but compile. -/
theorem compiles (hpaired : Engine.Paired matching transcript engine engine' background background')
    {next next' : Engine} {later later' : Background} (hcompiles : engine.Compiles next background later)
    (hcompiles' : engine'.Compiles next' background' later') :
    Engine.Paired matching transcript next next' later later' := by
  obtain ⟨hstrict, hlimit, hstands, hworld, hnext, added, count, hclosures, hnumbered, hgrows⟩ := hcompiles
  obtain ⟨hstrict', hlimit', hstands', hworld', hnext', added', count', hclosures', hnumbered', hgrows'⟩ := hcompiles'
  obtain ⟨known, closures, registry, world⟩ := later
  obtain ⟨known', closures', registry', world'⟩ := later'
  dsimp only at hworld hworld' hclosures hclosures' hgrows hgrows'
  subst hworld hworld' hclosures hclosures'
  exact ⟨hpaired.machines.grow hstands.machine hstands'.machine hlimit hlimit'
    (hpaired.machines.fits.grow hgrows hgrows' hnumbered hnumbered' hnext hnext') (fun _ _ hmatched ↦ hmatched)
    hgrows.toExtends hgrows'.toExtends, by rw [hstrict, hstrict', hpaired.strict], hstands, hstands'⟩

/-- Engines stay paired when the second one carries a silent command out. -/
theorem insert (hpaired : Engine.Paired matching transcript engine engine' background background')
    (hsilent : command.Silent engine') {steps : Nat} {answer : Answer} {next : Engine}
    (hperformed : engine'.perform steps command = some (answer, next)) :
    ∃ later : Background, later.known = answer.given ++ background'.known ∧
      Engine.Paired matching transcript engine next background later := by
  obtain ⟨found, later, hknown, hanswered, hcompiles⟩ := hpaired.right.perform_silent hsilent
  obtain ⟨rfl, rfl⟩ := Prod.mk.inj (Option.some.inj ((hanswered steps).symm.trans hperformed))
  exact ⟨later, hknown, hpaired.compiles (.refl hpaired.left) hcompiles⟩

/-- Engines stay paired when their machines do with the same constants. -/
theorem withMachines (hpaired : Engine.Paired matching transcript engine engine' background background')
    {machine machine' : Machine} {world world' : World}
    (hmachines : Machine.Paired matching transcript machine machine' { background with world := world }
      { background' with world := world' }) (hconstants : machine.constants = engine.machine.constants)
    (hconstants' : machine'.constants = engine'.machine.constants) :
    Engine.Paired matching transcript ⟨machine, engine.strict⟩ ⟨machine', engine'.strict⟩
      { background with world := world } { background' with world := world' } := by
  refine ⟨hmachines, hpaired.strict, ⟨hmachines.left, ?_⟩, ⟨hmachines.right, ?_⟩⟩
  · dsimp only
    rw [hconstants]
    exact hpaired.left.listed
  · dsimp only
    rw [hconstants']
    exact hpaired.right.listed

/-- Engines stay paired when they hand out alike valid values. -/
theorem handOut (hpaired : Engine.Paired matching transcript engine engine' background background')
    {answer answer' : Answer} (hlike : answer.Like (matching.between background background') answer')
    (hgiven : ∀ value ∈ answer.given, value.Valid background.registry background.world.store.records)
    (hgiven' : ∀ value ∈ answer'.given, value.Valid background'.registry background'.world.store.records) :
    Engine.Paired matching ((answer, answer') :: transcript) engine engine' (background.handOut answer)
      (background'.handOut answer') :=
  have hmachines := hpaired.machines.handOut hlike hgiven hgiven'
  ⟨hmachines, hpaired.strict, ⟨hmachines.left, hpaired.left.listed.handOut answer.given⟩,
    ⟨hmachines.right, hpaired.right.listed.handOut answer'.given⟩⟩

/-- Engines stay paired when both give the same answer that hands out nothing. -/
theorem answer (hpaired : Engine.Paired matching transcript engine engine' background background') {answer : Answer}
    (hnone : answer.given = []) :
    Engine.Paired matching ((answer, answer) :: transcript) engine engine' (background.handOut answer)
      (background'.handOut answer) :=
  hpaired.handOut (.same hnone) (hnone ▸ List.forall_mem_nil _) (hnone ▸ List.forall_mem_nil _)

end Paired

/-! ### Answers of two engines -/

/-- Two engines answer two commands when they may take enough steps, and are paired afterwards if words can number
their constants. -/
def AnswerAlike (transcript : Transcript) (known known' : List Value) (engine engine' : Engine)
    (command command' : Command) : Prop :=
  ∃ (answer answer' : Answer) (next next' : Engine) (bound : Nat),
    (∀ steps : Nat, bound ≤ steps → engine.perform steps command = some (answer, next) ∧
      engine'.perform steps command' = some (answer', next')) ∧
    (next.machine.constants.size ≤ Word.indexLimit → next'.machine.constants.size ≤ Word.indexLimit →
      ∃ (matching : Matching) (later later' : Background), later.known = answer.given ++ known ∧
        later'.known = answer'.given ++ known' ∧
        Engine.Paired matching ((answer, answer') :: transcript) next next' later later')

variable {matching : Matching} {transcript : Transcript} {command' : Command}

/-- A call of a global is answered with what its function comes to. -/
theorem perform_call (engine : Engine) (steps : Nat) (name : String) (arguments : List Value) :
    engine.perform steps (.call name arguments) = (engine.machine.callGlobal steps name arguments).map
      fun outcome ↦ (.ofResult outcome.1, ⟨outcome.2, engine.strict⟩) := by
  rw [perform, call, Option.map_map]
  refine congrArg (Option.map · _) (funext fun outcome ↦ ?_)
  obtain ⟨_ | _, _⟩ := outcome <;> rfl

/-! ### Commands that run code -/

/-- Engines answer alike when they run functions that stand for each other. -/
theorem answerAlike_of_runs
    (hpaired : Machine.Paired matching transcript (engine.prepared command).machine (engine'.prepared command').machine
      background background') (hstrict : engine.strict = engine'.strict)
    (hadmits : engine.Admits background.known command) (hadmits' : engine'.Admits background'.known command')
    {routine routine' : Routine} {arguments arguments' : List Value}
    (hruns : engine.runs? command = some (routine, arguments))
    (hruns' : engine'.runs? command' = some (routine', arguments'))
    (hready : (engine.prepared command).machine.Ready background.known background.closures background.registry
      background.world routine arguments)
    (hready' : (engine'.prepared command').machine.Ready background'.known background'.closures background'.registry
      background'.world routine' arguments')
    (hlisted : background.registry.Listed (.function (.compiled routine) ::
      ((engine.prepared command).machine.constants.entries.toList ++ background.known)))
    (hlisted' : background'.registry.Listed (.function (.compiled routine') ::
      ((engine'.prepared command').machine.constants.entries.toList ++ background'.known)))
    (hfunctions : (matching.between background background').functions (.compiled routine) (.compiled routine'))
    (harguments : List.Forall₂ (Value.Like (matching.between background background')) arguments arguments') :
    AnswerAlike transcript background.known background'.known engine engine' command command' := by
  have hcode := hadmits.addresses.size_lt hruns hlisted
  obtain ⟨outcome, outcome', bound, hinvoked, hgrown, hgrown', hlater⟩ := hpaired.invokeRoutine hready hready'
    (fun identity found hfound ↦ Nat.lt_succ_of_lt (hcode identity found hfound)) hfunctions harguments
    (hadmits.small.not_crowds hruns) (hadmits'.small.not_crowds hruns')
  refine ⟨.ofResult outcome.1, .ofResult outcome'.1, ⟨outcome.2, engine.strict⟩, ⟨outcome'.2, engine'.strict⟩, bound,
    fun steps hsteps ↦ ⟨?_, ?_⟩, fun hsize hsize' ↦ ?_⟩
  · rw [perform_of_runs? hruns, (hinvoked steps hsteps).1]
    obtain ⟨_ | _, _⟩ := outcome <;> rfl
  · rw [perform_of_runs? hruns', (hinvoked steps hsteps).2]
    obtain ⟨_ | _, _⟩ := outcome' <;> rfl
  · obtain ⟨world, world', hmachines⟩ := hlater hsize hsize'
    exact ⟨matching, _, _, rfl, rfl, hmachines, hstrict,
      ⟨hmachines.left, (hready.listed hgrown hlisted).handOut _⟩,
      ⟨hmachines.right, (hready'.listed hgrown' hlisted').handOut _⟩⟩

namespace Paired

/-- Paired engines answer alike when they run a script that both accept. -/
theorem answerAlike_of_accepted (hpaired : Engine.Paired matching transcript engine engine' background background')
    {script : Script} (hscript : command.script? = some script) (hadmits : engine.Admits background.known command)
    (hadmits' : engine'.Admits background'.known command) {main main' : Routine}
    (hmain : engine.main? script = some main) (hmain' : engine'.main? script = some main')
    (hruns : engine.runs? command = some (main, [])) (hruns' : engine'.runs? command = some (main', [])) :
    AnswerAlike transcript background.known background'.known engine engine' command command := by
  obtain ⟨registry, hgrows, hready, hlisted⟩ :=
    hpaired.left.machine.ready_main hpaired.left.listed hscript hadmits.addresses hmain hruns
  obtain ⟨registry', hgrows', hready', hlisted'⟩ :=
    hpaired.right.machine.ready_main hpaired.right.listed hscript hadmits'.addresses hmain' hruns'
  obtain ⟨hidentity, hnext, hline⟩ := hpaired.left.machine.accepted_main hmain
  obtain ⟨hidentity', hnext', hline'⟩ := hpaired.right.machine.accepted_main hmain'
  rw [← prepared_eq hscript] at hnext hnext'
  -- the sites of the script are matched one by one, the one of its body last
  have hsites : (matching.extend engine.machine.nextIdentity engine'.machine.nextIdentity script.sites).Along
    engine.machine.nextIdentity engine'.machine.nextIdentity script.sites := Matching.along_extend
  have hmatched := hsites.last
  rw [← hidentity, ← hidentity'] at hmatched
  have hfits := hpaired.machines.fits.extend (closures_eq hscript ▸ hgrows) (closures_eq hscript ▸ hgrows')
    (script.numbered_closures _) (script.numbered_closures _) (script.twins hsites)
    hpaired.left.machine.workspace.functions hpaired.right.machine.workspace.functions
  rw [← hnext, ← hnext', ← closures_eq hscript, ← closures_eq hscript] at hfits
  have hprepared := hpaired.machines.grow hready.consistent hready'.consistent (congrArg Stack.limit prepared_stack)
    (congrArg Stack.limit prepared_stack) hfits (fun _ _ hold ↦ Or.inl hold) hgrows.toExtends hgrows'.toExtends
  have hfunctions := hfits.functions_of_matched hready.consistent hready'.consistent
    (Nat.le_of_lt hadmits.addresses.constants) (Nat.le_of_lt hadmits'.addresses.constants) hready.registered
    hready'.registered hmatched (hline.trans hline'.symm)
  have halike := answerAlike_of_runs hprepared hpaired.strict hadmits hadmits' hruns hruns' hready hready' hlisted
    hlisted' hfunctions .nil
  exact halike

/-- Paired engines refuse a script alike. -/
theorem answerAlike_of_refused (hpaired : Engine.Paired matching transcript engine engine' background background')
    {script : Script} (hscript : command.script? = some script) {error : CompileError}
    (hresult : engine.compile script = (.error error, (engine.compile script).2))
    (hresult' : engine'.compile script = (.error error, (engine'.compile script).2)) :
    AnswerAlike transcript background.known background'.known engine engine' command command := by
  obtain ⟨later, hknown, hcompiles⟩ := hpaired.left.compile script
  obtain ⟨later', hknown', hcompiles'⟩ := hpaired.right.compile script
  exact ⟨.refused (.compile error), .refused (.compile error), _, _, 0, fun steps _ ↦
    ⟨perform_of_refused hscript hresult steps, perform_of_refused hscript hresult' steps⟩, fun _ _ ↦
    ⟨matching, _, _, hknown, hknown', (hpaired.compiles hcompiles hcompiles').answer rfl⟩⟩

/-- Paired engines answer alike when they evaluate a script. -/
theorem answerAlike_of_script (hpaired : Engine.Paired matching transcript engine engine' background background')
    {script : Script} (hscript : command.script? = some script)
    (hruns : ∀ engine : Engine, engine.runs? command = (engine.main? script).map fun main ↦ (main, []))
    (hadmits : engine.Admits background.known command) (hadmits' : engine'.Admits background'.known command) :
    AnswerAlike transcript background.known background'.known engine engine' command command := by
  have hagrees := compileScript_agrees engine.strict script
    ⟨engine.machine.constants, engine.machine.nextIdentity⟩ ⟨engine'.machine.constants, engine'.machine.nextIdentity⟩
  have hresult : ∀ {engine : Engine} {main : Routine} {after : Workspace},
      compileScript engine.strict script ⟨engine.machine.constants, engine.machine.nextIdentity⟩ = .ok main after →
        engine.main? script = some main := by
    intro engine main after hcompiled
    rw [main?, compile_of_compileScript hcompiled]
    rfl
  have hrefused : ∀ {engine : Engine} {error : CompileError} {after : Workspace},
      compileScript engine.strict script ⟨engine.machine.constants, engine.machine.nextIdentity⟩ = .error error after →
        engine.compile script = (.error error, (engine.compile script).2) := by
    intro engine error after hcompiled
    unfold Engine.compile Machine.compileWith
    rw [hcompiled]
  rcases hagrees with
    ⟨main, main', after, after', hcompiled, hcompiled'⟩ | ⟨error, after, after', hcompiled, hcompiled'⟩
  · have hmain := hresult hcompiled
    have hmain' := hresult (hpaired.strict ▸ hcompiled')
    exact hpaired.answerAlike_of_accepted hscript hadmits hadmits' hmain hmain' (by rw [hruns, hmain]; rfl)
      (by rw [hruns, hmain']; rfl)
  · exact hpaired.answerAlike_of_refused hscript (hrefused hcompiled) (hrefused (hpaired.strict ▸ hcompiled'))

/-- Paired engines answer alike when they call the same global. -/
theorem answerAlike_of_call (hpaired : Engine.Paired matching transcript engine engine' background background')
    {name : String} {arguments arguments' : List Value}
    (harguments : List.Forall₂ (Value.Corresponds transcript) arguments arguments')
    (hadmits : engine.Admits background.known (.call name arguments))
    (hadmits' : engine'.Admits background'.known (.call name arguments')) :
    AnswerAlike transcript background.known background'.known engine engine' (.call name arguments)
      (.call name arguments') := by
  have hlike : List.Forall₂ (Value.Like (matching.between background background')) arguments arguments' :=
    harguments.imp fun _ _ hvalue ↦ hvalue.like hpaired.machines.transcript
  have hvalues : ∀ value ∈ arguments, value.Valid background.registry background.world.store.records :=
    fun value hvalue ↦ (hadmits.admissible value hvalue).valid hpaired.left.machine.world.given
  have hvalues' : ∀ value ∈ arguments', value.Valid background'.registry background'.world.store.records :=
    fun value hvalue ↦ (hadmits'.admissible value hvalue).valid hpaired.right.machine.world.given
  have hglobals : engine.machine.globals = background.world.globals := hpaired.left.machine.realizes.shows.globals
  have hglobals' : engine'.machine.globals = background'.world.globals := hpaired.right.machine.realizes.shows.globals
  have hglobal := hpaired.machines.world.globals name
  rw [← hglobals, ← hglobals'] at hglobal
  generalize hfound : engine.machine.globals.lookup name = found at hglobal
  generalize hfound' : engine'.machine.globals.lookup name = found' at hglobal
  have hcalled : ∀ {engine : Engine} {passed : List Value} {value : Value}, engine.machine.globals.lookup name = value →
      (∀ function : Function, value ≠ .function function) → ∀ steps : Nat,
      engine.perform steps (.call name passed) =
        some (.refused (.runtime (.atEntry (.typeMismatch "function" value.typeName) name)), engine) := by
    rintro engine passed _ rfl hother
    exact (Replies.notFunction hother).perform_eq
  cases hglobal
  case function function function' hfunctions =>
    obtain ⟨-, -, -, hresembles⟩ := id hfunctions
    cases hresembles with
    | @compiled routine routine' =>
      have hruns : engine.runs? (.call name arguments) = some (routine, arguments) := by rw [runs?, hfound]
      have hruns' : engine'.runs? (.call name arguments') = some (routine', arguments') := by rw [runs?, hfound']
      exact answerAlike_of_runs hpaired.machines hpaired.strict hadmits hadmits' hruns hruns'
        (hpaired.left.machine.ready_call hpaired.left.listed hadmits.addresses hruns hvalues)
        (hpaired.right.machine.ready_call hpaired.right.listed hadmits'.addresses hruns' hvalues')
        (hpaired.left.listed.mono (List.subset_cons_self _ _)) (hpaired.right.listed.mono (List.subset_cons_self _ _))
        hfunctions hlike
    | native identity identity' called operation =>
      obtain ⟨outcome, outcome', world, world', hinvoked, hconstants, hconstants', hmachines⟩ :=
        hpaired.machines.invokeNative identity identity' called operation hlike hvalues hvalues'
      refine ⟨.ofResult outcome.1, .ofResult outcome'.1, ⟨outcome.2, engine.strict⟩, ⟨outcome'.2, engine'.strict⟩, 0,
        fun steps _ ↦ ⟨?_, ?_⟩, fun _ _ ↦ ⟨matching, _, _, rfl, rfl, hmachines, hpaired.strict,
          ⟨hmachines.left, ?_⟩, ⟨hmachines.right, ?_⟩⟩⟩
      · rw [perform_call, Machine.callGlobal, hfound]
        exact congrArg (Option.map _) (hinvoked steps).1
      · rw [perform_call, Machine.callGlobal, hfound']
        exact congrArg (Option.map _) (hinvoked steps).2
      · dsimp only
        rw [hconstants]
        exact hpaired.left.listed.handOut _
      · dsimp only
        rw [hconstants']
        exact hpaired.right.listed.handOut _
  all_goals
    exact ⟨_, _, engine, engine', 0, fun steps _ ↦ ⟨hcalled hfound (by rintro _ ⟨⟩) steps,
      hcalled hfound' (by rintro _ ⟨⟩) steps⟩, fun _ _ ↦ ⟨matching, _, _, rfl, rfl, hpaired.answer rfl⟩⟩

/-! ### Commands that run no code -/

/-- Engines answer alike when both are answered at once and are paired afterwards. -/
theorem answerAlike_of_paired {answer answer' : Answer} {next next' : Engine} {later later' : Background}
    (hpaired : Engine.Paired matching ((answer, answer') :: transcript) next next' later later')
    (hanswered : ∀ steps : Nat, engine.perform steps command = some (answer, next))
    (hanswered' : ∀ steps : Nat, engine'.perform steps command' = some (answer', next'))
    (hknown : later.known = answer.given ++ background.known)
    (hknown' : later'.known = answer'.given ++ background'.known) :
    AnswerAlike transcript background.known background'.known engine engine' command command' :=
  ⟨answer, answer', next, next', 0, fun steps _ ↦ ⟨hanswered steps, hanswered' steps⟩, fun _ _ ↦
    ⟨matching, later, later', hknown, hknown', hpaired⟩⟩

/-- Paired engines answer alike when they read the same field. -/
theorem answerAlike_of_getField (hpaired : Engine.Paired matching transcript engine engine' background background')
    {object object' : ObjectRef} (name : String)
    (hobject : (Value.object object).Corresponds transcript (.object object'))
    (hadmissible : .object object ∈ background.known) (hadmissible' : .object object' ∈ background'.known) :
    AnswerAlike transcript background.known background'.known engine engine' (.getField object name)
      (.getField object' name) := by
  obtain ⟨value, hget, hread, -⟩ :=
    hpaired.left.machine.getField (hpaired.left.machine.world.given _ hadmissible) name
  obtain ⟨value', hget', hread', -⟩ :=
    hpaired.right.machine.getField (hpaired.right.machine.world.given _ hadmissible') name
  have hlike := hpaired.machines.world.readField hpaired.machines.faithful (hobject.like hpaired.machines.transcript)
    name
  rw [hread, hread'] at hlike
  cases hlike with
  | ok hvalue =>
    have hgiven := hpaired.left.machine.world.readField hread
    have hgiven' := hpaired.right.machine.world.readField hread'
    exact answerAlike_of_paired (hpaired.handOut (.value hvalue) (List.forall_mem_singleton.mpr hgiven)
      (List.forall_mem_singleton.mpr hgiven')) (fun _ ↦ by rw [perform, hget]) (fun _ ↦ by rw [perform, hget']) rfl rfl

/-- Paired engines answer alike when their host makes the same class. -/
theorem answerAlike_of_newClass (hpaired : Engine.Paired matching transcript engine engine' background background')
    (fields : List String) :
    AnswerAlike transcript background.known background'.known engine engine' (.newClass fields) (.newClass fields) := by
  obtain ⟨hmachines, hlayouts⟩ := hpaired.machines.newClass fields
  have hlater : Engine.Paired _ transcript ⟨(engine.machine.newClass fields).2, engine.strict⟩
      ⟨(engine'.machine.newClass fields).2, engine'.strict⟩ _ _ :=
    ⟨hmachines, hpaired.strict, ⟨hmachines.left, hpaired.left.listed⟩, ⟨hmachines.right, hpaired.right.listed⟩⟩
  exact answerAlike_of_paired (hlater.handOut (.value (.layout hlayouts)) (List.forall_mem_singleton.mpr (if_pos rfl))
    (List.forall_mem_singleton.mpr (if_pos rfl))) (fun _ ↦ rfl) (fun _ ↦ rfl) rfl rfl

/-- Paired engines answer alike when their host installs functions that correspond. -/
theorem answerAlike_of_newHostFunction
    (hpaired : Engine.Paired matching transcript engine engine' background background') (name : String)
    {behaviour behaviour' : HostFunction} (hbehaviour : behaviour.Corresponds transcript behaviour')
    (hpolite : HostFunction.Polite background.known behaviour)
    (hpolite' : HostFunction.Polite background'.known behaviour') :
    AnswerAlike transcript background.known background'.known engine engine' (.newHostFunction name behaviour)
      (.newHostFunction name behaviour') := by
  obtain ⟨hmachines, hfunctions⟩ := hpaired.machines.newHostFunction name hbehaviour hpolite hpolite'
  have hlisted : ∀ {registry : Registry} {values : List Value} {identity position : Nat}, registry.Listed values →
      (Lowering.withFunction registry (.native identity name (.host position))).Listed values :=
    fun hlisted identity routine hroutine ↦
      hlisted identity routine (Registry.functions_of_withNative hroutine)
  have hlater : Engine.Paired _ transcript ⟨(engine.machine.newHostFunction name behaviour).2, engine.strict⟩
      ⟨(engine'.machine.newHostFunction name behaviour').2, engine'.strict⟩ _ _ :=
    ⟨hmachines, hpaired.strict, ⟨hmachines.left, hlisted hpaired.left.listed⟩,
      ⟨hmachines.right, hlisted hpaired.right.listed⟩⟩
  exact answerAlike_of_paired (hlater.handOut (.value (.function hfunctions))
    (List.forall_mem_singleton.mpr (if_pos rfl)) (List.forall_mem_singleton.mpr (if_pos rfl))) (fun _ ↦ rfl)
    (fun _ ↦ rfl) rfl rfl

/-- Paired engines answer alike when they are asked for the same. -/
theorem perform (hpaired : Engine.Paired matching transcript engine engine' background background')
    (hcorresponds : command.Corresponds transcript command') (hadmits : engine.Admits background.known command)
    (hadmits' : engine'.Admits background'.known command') :
    AnswerAlike transcript background.known background'.known engine engine' command command' := by
  cases hcorresponds with
  | eval script =>
    exact hpaired.answerAlike_of_script rfl (fun _ ↦ rfl) hadmits hadmits'
  | evalText text =>
    cases hscript : Script.ofText? text with
    | some script =>
      refine hpaired.answerAlike_of_script hscript (fun _ ↦ ?_) hadmits hadmits'
      rw [runs?, hscript]
      rfl
    | none =>
      exact answerAlike_of_paired (hpaired.answer rfl) (Replies.unreadable hscript).perform_eq
        (Replies.unreadable hscript).perform_eq rfl rfl
  | call name harguments => exact hpaired.answerAlike_of_call harguments hadmits hadmits'
  | register name hvalue =>
    have hlike := hvalue.like hpaired.machines.transcript
    have hvalid := Value.FromHost.valid hpaired.left.machine.world.given hadmits.admissible
    have hvalid' := Value.FromHost.valid hpaired.right.machine.world.given hadmits'.admissible
    have hmachines := hpaired.machines.withWorlds (hpaired.left.machine.register name hvalid)
      (hpaired.right.machine.register name hvalid') rfl rfl rfl rfl rfl rfl
      (hpaired.machines.world.register name hlike)
    exact answerAlike_of_paired ((hpaired.withMachines hmachines rfl rfl).answer rfl) (fun _ ↦ rfl) (fun _ ↦ rfl) rfl
      rfl
  | lookup name =>
    have hglobals : engine.machine.globals = background.world.globals := hpaired.left.machine.realizes.shows.globals
    have hglobals' : engine'.machine.globals = background'.world.globals := hpaired.right.machine.realizes.shows.globals
    refine answerAlike_of_paired (hpaired.handOut (.value (hpaired.machines.world.globals name))
      (List.forall_mem_singleton.mpr (hpaired.left.machine.world.globals name))
      (List.forall_mem_singleton.mpr (hpaired.right.machine.world.globals name))) (fun _ ↦ ?_) (fun _ ↦ ?_) rfl rfl
    · rw [Engine.perform, hglobals]
    · rw [Engine.perform, hglobals']
  | getField name hobject => exact hpaired.answerAlike_of_getField name hobject hadmits.admissible hadmits'.admissible
  | newClass fields => exact hpaired.answerAlike_of_newClass fields
  | newHostFunction name hbehaviour =>
    exact hpaired.answerAlike_of_newHostFunction name hbehaviour hadmits.admissible hadmits'.admissible
  | takePrinted =>
    have hsink : engine.machine.sink = background.world.sink := hpaired.left.machine.realizes.shows.sink
    have hsink' : engine'.machine.sink = background'.world.sink := hpaired.right.machine.realizes.shows.sink
    have hlooser := hpaired.machines.world.sink
    rw [← hsink, ← hsink'] at hlooser
    have hmachines := hpaired.machines.withWorlds
      (hpaired.left.machine.withSink { engine.machine.sink with written := "" })
      (hpaired.right.machine.withSink { engine'.machine.sink with written := "" }) rfl rfl rfl rfl rfl rfl
      (hpaired.machines.world.withSink ⟨rfl, hlooser.budget, hlooser.same⟩)
    refine answerAlike_of_paired ((hpaired.withMachines hmachines rfl rfl).answer rfl) (fun _ ↦ rfl) (fun _ ↦ ?_) rfl
      rfl
    rw [Engine.perform, hlooser.written]
    rfl

end Paired

end Engine

end ScriptMachine
