import ScriptMachine.Proofs.Sessions

/-!
# What a command comes to

A command runs a compiled function, which is the body of its script or bound to the global that it calls
(`Engine.Starts`), or it is answered at once (`Engine.Replies`). `Engine.Replies` lists once and for all what these
answers are and what engine they leave behind. They are the answers however long code may run
(`Engine.Replies.perform_eq`), and there is one whenever no code is run (`Engine.exists_replies`), so that whatever
holds of every command is shown by cases of these two.
-/

set_option autoImplicit false
set_option relaxedAutoImplicit false

namespace ScriptMachine

namespace Engine

variable {engine next : Engine} {command : Command} {answer : Answer}

/-! ### Commands that run code -/

/-- How a command comes to run a compiled function: it evaluates a script, whose body is the function, or it calls a
global that is bound to it. -/
inductive Starts (engine : Engine) : Command → Routine → List Value → Prop where
  | eval {command : Command} {script : Script} {main : Routine} (hscript : command.script? = some script)
      (hmain : engine.main? script = some main)
      (hperform : ∀ steps : Nat, engine.perform steps command = (engine.eval steps script).map Answer.ofOutcome) :
      Starts engine command main []
  | call {name : String} {arguments : List Value} {routine : Routine}
      (hglobal : engine.machine.globals.lookup name = .function (.compiled routine)) :
      Starts engine (.call name arguments) routine arguments

/-- A command that runs code evaluates a script or calls a global. -/
theorem starts_of_runs? {routine : Routine} {arguments : List Value}
    (hruns : engine.runs? command = some (routine, arguments)) : engine.Starts command routine arguments := by
  cases command
  case eval script =>
    obtain ⟨main, hmain, hsame⟩ := Option.map_eq_some_iff.mp hruns
    obtain ⟨rfl, rfl⟩ := Prod.mk.inj hsame
    exact .eval rfl hmain fun _ ↦ rfl
  case evalText text =>
    obtain ⟨script, hscript, hrun⟩ := Option.bind_eq_some_iff.mp hruns
    obtain ⟨main, hmain, hsame⟩ := Option.map_eq_some_iff.mp hrun
    obtain ⟨rfl, rfl⟩ := Prod.mk.inj hsame
    refine .eval hscript hmain fun steps ↦ ?_
    rw [perform, evalText, hscript]
  case call name passed =>
    unfold runs? at hruns
    dsimp only at hruns
    split at hruns
    case h_1 hglobal =>
      cases hruns
      exact .call hglobal
    case h_2 => cases hruns
  all_goals cases hruns

/-- A call that runs code finds its function among the globals. -/
theorem lookup_of_runs? {name : String} {passed arguments : List Value} {routine : Routine}
    (hruns : engine.runs? (.call name passed) = some (routine, arguments)) :
    engine.machine.globals.lookup name = .function (.compiled routine) := by
  cases starts_of_runs? hruns with
  | eval hscript => cases hscript
  | call hglobal => exact hglobal

/-! ### Scripts that are refused -/

/-- A script that is not accepted is refused. -/
theorem compile_eq_of_main?_none {script : Script} (hmain : engine.main? script = none) :
    ∃ error : CompileError, engine.compile script = (.error error, (engine.compile script).2) := by
  unfold main? at hmain
  cases hresult : (engine.compile script).1 with
  | ok found =>
    rw [hresult] at hmain
    cases hmain
  | error error => exact ⟨error, Prod.ext hresult rfl⟩

/-- A script that is refused is answered at once. -/
theorem eval_of_refused {script : Script} {error : CompileError}
    (hresult : engine.compile script = (.error error, (engine.compile script).2)) (steps : Nat) :
    engine.eval steps script = some (.error (.compile error), (engine.compile script).2) := by
  unfold eval
  rw [hresult]

/-- A dump leaves behind what the compilation does. -/
theorem dump_snd (engine : Engine) (script : Script) : (engine.dump script).2 = (engine.compile script).2 := by
  unfold dump
  obtain ⟨_ | _, _⟩ := engine.compile script <;> rfl

/-! ### Commands that run no code -/

/-- What comes of a command that runs no compiled function: a refused script or an unreadable one, code that is handed
out or listed, a call of a native function or of what is no function, and the services of the engine. -/
inductive Replies (engine : Engine) : Command → Answer → Engine → Prop where
  | refused {command : Command} {script : Script} {error : CompileError} (hscript : command.script? = some script)
      (hrefused : engine.compile script = (.error error, (engine.compile script).2)) :
      Replies engine command (.refused (.compile error)) (engine.compile script).2
  | unreadable {text : String} (hscript : Script.ofText? text = none) :
      Replies engine (.evalText text) (.refused .invalidTree) engine
  | compiled {script : Script} {main : Routine} (haccepted : (engine.compile script).1 = .ok main) :
      Replies engine (.compile script) (.value (.function (.compiled main))) (engine.compile script).2
  | dumped {script : Script} {listing : String} (hdumped : (engine.dump script).1 = .ok listing) :
      Replies engine (.dump script) (.text listing) (engine.compile script).2
  | returned {name called : String} {arguments : List Value} {identity : Nat} {operation : Native}
      {value : Value} {machine : Machine}
      (hglobal : engine.machine.globals.lookup name = .function (.native identity called operation))
      (happlied : Machine.applyNative operation .undefined arguments engine.machine = .ok value machine) :
      Replies engine (.call name arguments) (.value value) ⟨machine, engine.strict⟩
  | failed {name called : String} {arguments : List Value} {identity : Nat} {operation : Native}
      {fault : Fault} {machine : Machine}
      (hglobal : engine.machine.globals.lookup name = .function (.native identity called operation))
      (happlied : Machine.applyNative operation .undefined arguments engine.machine = .error fault machine) :
      Replies engine (.call name arguments) (.refused (.runtime (.atEntry fault called))) ⟨machine, engine.strict⟩
  | notFunction {name : String} {arguments : List Value}
      (hglobal : ∀ function : Function, engine.machine.globals.lookup name ≠ .function function) :
      Replies engine (.call name arguments)
        (.refused (.runtime
          (.atEntry (.typeMismatch "function" (engine.machine.globals.lookup name).typeName) name))) engine
  | register (name : String) (value : Value) :
      Replies engine (.register name value) .done ⟨engine.machine.register name value, engine.strict⟩
  | lookup (name : String) :
      Replies engine (.lookup name) (.value (engine.machine.globals.lookup name)) engine
  | read {object : ObjectRef} {name : String} {value : Value}
      (hfield : engine.machine.getField object name = .ok value) :
      Replies engine (.getField object name) (.value value) engine
  | unread {object : ObjectRef} {name : String} {fault : Fault}
      (hfield : engine.machine.getField object name = .error fault) :
      Replies engine (.getField object name) (.failed fault) engine
  | newClass (fields : List String) :
      Replies engine (.newClass fields) (.value (.layout (engine.machine.newClass fields).1))
        ⟨(engine.machine.newClass fields).2, engine.strict⟩
  | newHostFunction (name : String) (behaviour : HostFunction) :
      Replies engine (.newHostFunction name behaviour)
        (.value (.function (engine.machine.newHostFunction name behaviour).1))
        ⟨(engine.machine.newHostFunction name behaviour).2, engine.strict⟩
  | takePrinted :
      Replies engine .takePrinted (.text engine.machine.takePrinted.1) ⟨engine.machine.takePrinted.2, engine.strict⟩

/-- A command whose script is refused is answered with the error. -/
theorem perform_of_refused {script : Script} {error : CompileError} (hscript : command.script? = some script)
    (hrefused : engine.compile script = (.error error, (engine.compile script).2)) (steps : Nat) :
    engine.perform steps command = some (.refused (.compile error), (engine.compile script).2) := by
  cases command
  case eval =>
    obtain rfl := Option.some.inj hscript
    rw [perform, eval_of_refused hrefused]
    rfl
  case evalText text =>
    replace hscript : Script.ofText? text = some script := hscript
    rw [perform, evalText, hscript]
    exact congrArg (Option.map Answer.ofOutcome) (eval_of_refused hrefused steps)
  case dump =>
    obtain rfl := Option.some.inj hscript
    rw [perform, dump, hrefused]
  case compile =>
    obtain rfl := Option.some.inj hscript
    rw [perform, hrefused]
  all_goals cases hscript

/-- The answer does not depend on how long code may run. -/
theorem Replies.perform_eq (hreplies : engine.Replies command answer next) (steps : Nat) :
    engine.perform steps command = some (answer, next) := by
  cases hreplies with
  | refused hscript hrefused => exact perform_of_refused hscript hrefused steps
  | unreadable hscript =>
    rw [perform, evalText, hscript]
    rfl
  | @compiled script main haccepted =>
    rw [perform, show engine.compile script = (.ok main, (engine.compile script).2) from Prod.ext haccepted rfl]
  | @dumped script listing hdumped =>
    rw [perform, show engine.dump script = (.ok listing, (engine.compile script).2) from
      Prod.ext hdumped (engine.dump_snd script)]
  | returned hglobal happlied | failed hglobal happlied =>
    rw [perform, call, Machine.callGlobal, hglobal]
    dsimp only [Machine.invoke]
    rw [happlied]
    rfl
  | @notFunction name arguments hglobal =>
    rw [perform, call, Machine.callGlobal]
    cases hfound : engine.machine.globals.lookup name
    case function function => exact absurd hfound (hglobal function)
    all_goals rfl
  | read hfield | unread hfield => rw [perform, hfield]
  | register | lookup | newClass | newHostFunction | takePrinted => rfl

/-- A call of a global that is no compiled function is answered at once. -/
theorem exists_replies_call {name : String} {arguments : List Value}
    (hruns : engine.runs? (.call name arguments) = none) :
    ∃ (answer : Answer) (next : Engine), engine.Replies (.call name arguments) answer next := by
  by_cases hother : ∀ function : Function, engine.machine.globals.lookup name ≠ .function function
  · exact ⟨_, _, .notFunction hother⟩
  · push Not at hother
    obtain ⟨function, hglobal⟩ := hother
    cases function with
    | compiled routine =>
      rw [runs?, hglobal] at hruns
      cases hruns
    | native identity called operation =>
      cases happlied : Machine.applyNative operation .undefined arguments engine.machine with
      | ok value machine => exact ⟨_, _, .returned hglobal happlied⟩
      | error fault machine => exact ⟨_, _, .failed hglobal happlied⟩

/-- Every command that runs no code is answered at once. -/
theorem exists_replies (hruns : engine.runs? command = none) :
    ∃ (answer : Answer) (next : Engine), engine.Replies command answer next := by
  cases command with
  | eval script =>
    obtain ⟨error, hrefused⟩ := compile_eq_of_main?_none (Option.map_eq_none_iff.mp hruns)
    exact ⟨_, _, .refused rfl hrefused⟩
  | evalText text =>
    cases hscript : Script.ofText? text with
    | none => exact ⟨_, _, .unreadable hscript⟩
    | some script =>
      rw [runs?, hscript] at hruns
      obtain ⟨error, hrefused⟩ := compile_eq_of_main?_none (Option.map_eq_none_iff.mp hruns)
      exact ⟨_, _, .refused hscript hrefused⟩
  | call name arguments => exact exists_replies_call hruns
  | dump script =>
    cases hresult : (engine.compile script).1 with
    | error error => exact ⟨_, _, .refused rfl (Prod.ext hresult rfl)⟩
    | ok main =>
      obtain ⟨listing, hdumped⟩ : ∃ listing : String, (engine.dump script).1 = .ok listing := by
        rw [dump, show engine.compile script = (.ok main, (engine.compile script).2) from Prod.ext hresult rfl]
        exact ⟨_, rfl⟩
      exact ⟨_, _, .dumped hdumped⟩
  | compile script =>
    cases hresult : (engine.compile script).1 with
    | error error => exact ⟨_, _, .refused rfl (Prod.ext hresult rfl)⟩
    | ok main => exact ⟨_, _, .compiled hresult⟩
  | register name value => exact ⟨_, _, .register name value⟩
  | lookup name => exact ⟨_, _, .lookup name⟩
  | getField object name =>
    cases hfield : engine.machine.getField object name with
    | ok value => exact ⟨_, _, .read hfield⟩
    | error fault => exact ⟨_, _, .unread hfield⟩
  | newClass fields => exact ⟨_, _, .newClass fields⟩
  | newHostFunction name behaviour => exact ⟨_, _, .newHostFunction name behaviour⟩
  | takePrinted => exact ⟨_, _, .takePrinted⟩

/-- What is answered to a command that runs no code is a reply. -/
theorem replies_of_perform (hruns : engine.runs? command = none) {steps : Nat}
    (hperformed : engine.perform steps command = some (answer, next)) : engine.Replies command answer next := by
  obtain ⟨found, later, hreplies⟩ := exists_replies hruns
  obtain ⟨rfl, rfl⟩ := Prod.mk.inj (Option.some.inj ((hreplies.perform_eq steps).symm.trans hperformed))
  exact hreplies

end Engine

end ScriptMachine
