import ScriptMachine.Proofs.AddedFunctions
import ScriptMachine.Proofs.AlikeListings
import ScriptMachine.Proofs.SessionActivities
import ScriptMachine.Proofs.TwinMachines

/-!
# Dumps

A dump shows a script function by function: first its body, and then every function literal in it once, in the order in
which the literals are finished. It looks for the literals behind the constants that were there before, and
`Machine.Consistent.written` says that exactly these are found, with the code of each. Since the functions of a script
that is compiled for two machines are twins, the text does not depend on what an engine has done before
(`Session.dump_eq`), and apart from new constants and identities the engine stays as it is.
-/

set_option autoImplicit false
set_option relaxedAutoImplicit false

namespace ScriptMachine

/-! ### Lines of functions -/

section Lines

/-- The lines of the function literals of several nodes do not depend on identities when those of each node do not. -/
theorem map_line_definitionsOf {nodes : List Node}
    (hnodes : ∀ node ∈ nodes, ∀ first first' : Nat,
      (node.definitions first).map Definition.line = (node.definitions first').map Definition.line)
    (first first' : Nat) :
    (definitionsOf first nodes).map Definition.line = (definitionsOf first' nodes).map Definition.line := by
  induction nodes generalizing first first' with
  | nil => rw [definitionsOf, definitionsOf]
  | cons node rest ih =>
    rw [definitionsOf, definitionsOf, List.map_append, List.map_append, hnodes node List.mem_cons_self first first',
      ih fun other hother ↦ hnodes other (List.mem_cons_of_mem _ hother)]

theorem map_line_fieldDefinitions {fields : List (Field Node)}
    (hfields : ∀ field ∈ fields, ∀ first first' : Nat,
      (field.value.definitions first).map Definition.line = (field.value.definitions first').map Definition.line)
    (first first' : Nat) :
    (fieldDefinitions first fields).map Definition.line = (fieldDefinitions first' fields).map Definition.line := by
  induction fields generalizing first first' with
  | nil => rw [fieldDefinitions, fieldDefinitions]
  | cons field rest ih =>
    rw [fieldDefinitions, fieldDefinitions, List.map_append, List.map_append,
      hfields field List.mem_cons_self first first',
      ih fun other hother ↦ hfields other (List.mem_cons_of_mem _ hother)]

/-- The lines of the function literals of a node do not depend on identities. -/
theorem Node.map_line_definitions (node : Node) :
    ∀ first first' : Nat,
      (node.definitions first).map Definition.line = (node.definitions first').map Definition.line := by
  induction node using Node.induction with
  | block body hbody =>
    intro first first'
    rw [Node.definitions, Node.definitions]
    exact map_line_definitionsOf hbody _ _
  | literal value line | access name line =>
    intro first first'
    rw [Node.definitions, Node.definitions]
  | call callee arguments line hcallee harguments | methodCall callee name arguments line hcallee harguments =>
    intro first first'
    rw [Node.definitions, Node.definitions, List.map_append, List.map_append, hcallee first first',
      map_line_definitionsOf harguments]
  | assignment name value declares line hvalue | ret value line hvalue | fieldAccess value name line hvalue =>
    intro first first'
    rw [Node.definitions, Node.definitions]
    exact hvalue _ _
  | function name parameters body line hbody =>
    intro first first'
    rw [Node.definitions, Node.definitions, List.map_append, List.map_append, map_line_definitionsOf hbody first first']
    rfl
  | conditional condition thenBlock elseBlock line hcondition hthen helse =>
    intro first first'
    rw [Node.definitions, Node.definitions, List.map_append, List.map_append, List.map_append, List.map_append,
      hcondition first first', map_line_definitionsOf hthen, map_line_definitionsOf helse]
  | object fields line hfields =>
    intro first first'
    rw [Node.definitions, Node.definitions]
    exact map_line_fieldDefinitions hfields _ _
  | fieldAssignment receiver name value line hreceiver hvalue =>
    intro first first'
    rw [Node.definitions, Node.definitions, List.map_append, List.map_append, hreceiver first first', hvalue]

/-- Two definitions are the same function of the source, with matched sites and with endings on the same line. -/
structure Definition.Twin (matching : Matching) (definition definition' : Definition) : Prop where
  closures : definition.toClosure.Twin matching definition'.toClosure
  lastLine : definition.lastLine = definition'.lastLine

/-- The functions of a script in the order of a dump: the one of its body, and then the literals in it. -/
def Script.dumped (first : Nat) (script : Script) : List Definition :=
  Definition.ofBody first "main" [] script.body script.body.line :: definitionsOf first script.body.nodes

/-- A dump shows the functions of the script, with their lines. -/
theorem Script.map_dumped (script : Script) (first : Nat) :
    (script.dumped first).map Definition.toClosure =
      Closure.ofBody first "main" [] script.body :: closuresOf first script.body.nodes := by
  rw [dumped, List.map_cons, map_definitionsOf fun node _ ↦ node.map_definitions]
  rfl

/-- A dump shows no other functions than those of the script. -/
theorem Script.mem_closures_of_dumped {script : Script} {first : Nat} {definition : Definition}
    (hmem : definition ∈ script.dumped first) : definition.toClosure ∈ script.closures first := by
  have hclosure := List.mem_map_of_mem (f := Definition.toClosure) hmem
  rw [script.map_dumped] at hclosure
  exact (List.perm_append_singleton _ _).symm.subset hclosure

/-- The functions of a script that is compiled twice are twins. -/
theorem Script.twins_dumped (script : Script) {matching : Matching} {first first' : Nat}
    (halong : matching.Along first first' script.sites) :
    List.Forall₂ (Definition.Twin matching) (script.dumped first) (script.dumped first') := by
  have htwins := List.Forall₂.cons (Closure.twin_ofBody "main" [] script.body halong)
    (twins_closuresOf (fun node _ ↦ node.twins) halong.left)
  rw [← script.map_dumped, ← script.map_dumped, List.forall₂_map_left_iff, List.forall₂_map_right_iff] at htwins
  have hlines : (script.dumped first).map Definition.line = (script.dumped first').map Definition.line := by
    rw [dumped, dumped, List.map_cons, List.map_cons,
      map_line_definitionsOf (fun node _ ↦ node.map_line_definitions) first first']
    rfl
  rw [← List.forall₂_eq_eq_eq, List.forall₂_map_left_iff, List.forall₂_map_right_iff] at hlines
  refine htwins.mp (fun definition definition' htwin hline ↦ ⟨htwin, ?_⟩) hlines
  rw [Definition.lastLine, Definition.lastLine, htwin.body, hline]

end Lines

/-! ### Functions and their code -/

/-- A routine is the code of a function, and ends on its last line. -/
structure Definition.Written (table : ConstantTable) (definition : Definition) (routine : Routine) : Prop where
  compiled : definition.toClosure.Compiled table routine
  lastLine : routine.unit.lastLine? = some definition.lastLine

section Sections

variable {likeness : Likeness} {matching : Matching} {table table' : ConstantTable}

/-- Twins have the same section. -/
theorem Definition.Twin.section_eq {definition definition' : Definition} (htwin : definition.Twin matching definition')
    (hcovers : likeness.Covers matching table table') (hfaithful : likeness.Faithful) {routine routine' : Routine}
    (hwritten : definition.Written table routine) (hwritten' : definition'.Written table' routine') :
    routine.section table = routine'.section table' := by
  have hline : routine.unit.lastLine? = routine'.unit.lastLine? := by
    rw [hwritten.lastLine, hwritten'.lastLine, htwin.lastLine]
  exact htwin.closures.section_eq hcovers hfaithful hwritten.compiled hwritten'.compiled hline

/-- Twins have the same sections, one by one. -/
theorem sections_eq_of_twins {definitions definitions' : List Definition} {routines routines' : List Routine}
    (htwins : List.Forall₂ (Definition.Twin matching) definitions definitions')
    (hcovers : likeness.Covers matching table table') (hfaithful : likeness.Faithful)
    (hwritten : List.Forall₂ (Definition.Written table) definitions routines)
    (hwritten' : List.Forall₂ (Definition.Written table') definitions' routines') :
    (routines.map fun routine ↦ routine.section table) = routines'.map fun routine ↦ routine.section table' := by
  induction htwins generalizing routines routines' with
  | nil =>
    rw [List.forall₂_nil_left_iff] at hwritten hwritten'
    rw [hwritten, hwritten', List.map_nil, List.map_nil]
  | cons htwin _ ih =>
    obtain ⟨routine, rest, hroutine, hrest, rfl⟩ := List.forall₂_cons_left_iff.mp hwritten
    obtain ⟨routine', rest', hroutine', hrest', rfl⟩ := List.forall₂_cons_left_iff.mp hwritten'
    rw [List.map_cons, List.map_cons, ih hrest hrest', htwin.section_eq hcovers hfaithful hroutine hroutine']

end Sections

/-- The workspace of a consistent machine is fresh. -/
theorem Workspace.Valid.isFresh {workspace : Workspace} {registry : Registry} (hvalid : workspace.Valid registry) :
    workspace.Fresh := by
  refine ⟨hvalid.constants.undefined, fun entry hentry identity hidentity ↦ ?_⟩
  have hentry := hvalid.constants.valid entry hentry
  cases entry <;> cases hidentity
  case function callee => exact hvalid.functions _ _ hentry
  case layout shape => exact hvalid.layouts _ _ hentry

/-! ### What a dump finds -/

namespace Engine

variable {engine engine' : Engine} {script : Script} {main main' : Routine} {after after' : Workspace}

/-- Behind an accepted script stands a compilation that comes to an end. -/
theorem exists_workspace (haccepted : (engine.compile script).1 = .ok main) :
    ∃ after : Workspace, compileScript engine.strict script
      ⟨engine.machine.constants, engine.machine.nextIdentity⟩ = .ok main after := by
  unfold compile Machine.compileWith at haccepted
  cases hresult : compileScript engine.strict script ⟨engine.machine.constants, engine.machine.nextIdentity⟩ with
  | error error after =>
    rw [hresult] at haccepted
    cases haccepted
  | ok found after =>
    rw [hresult] at haccepted
    obtain rfl := Except.ok.inj haccepted
    exact ⟨after, rfl⟩

/-- A dump shows the body of a script, and behind it the functions among the constants that were added. -/
theorem dump_of_compileScript
    (hcompiled : compileScript engine.strict script ⟨engine.machine.constants, engine.machine.nextIdentity⟩ =
      .ok main after) :
    engine.dump script = (.ok ("\n".intercalate ((main :: compiledAmong
        (after.constants.entries.toList.drop engine.machine.constants.size)).map fun routine ↦
          routine.section after.constants)),
      ⟨{ engine.machine with constants := after.constants, nextIdentity := after.nextIdentity }, engine.strict⟩) := by
  unfold dump
  rw [compile_of_compileScript hcompiled]

section Functions

variable {known known' : List Value} {closures closures' : List Closure} {registry registry' : Registry}
  {world world' : World}

/-- The function of the body of a script, and those among the constants that it adds, are the code of the functions of
the script, each once and in the order of a dump. -/
theorem written_of_compileScript (hmachine : engine.machine.Consistent known closures registry world)
    (hlisted : registry.Listed (engine.machine.constants.entries.toList ++ known))
    (hcompiled : compileScript engine.strict script ⟨engine.machine.constants, engine.machine.nextIdentity⟩ =
      .ok main after) (hsize : after.constants.size ≤ Word.indexLimit) :
    List.Forall₂ (Definition.Written after.constants) (script.dumped engine.machine.nextIdentity)
      (main :: compiledAmong (after.constants.entries.toList.drop engine.machine.constants.size)) := by
  obtain ⟨happends, hmain⟩ := appends_compileScript engine.strict script _ _ hmachine.workspace.isFresh rfl main after
    hcompiled
  obtain ⟨added, hadded, hdescribes⟩ := happends.entries
  have hdrop : after.constants.entries.toList.drop engine.machine.constants.size = added := by
    rw [hadded]
    exact List.drop_left
  have hcompile := compile_of_compileScript hcompiled
  obtain ⟨-, -, -, -, -, hknown⟩ := hmachine.compile hlisted script
  obtain ⟨latest, -, hprepared, hfunction, -⟩ := hknown main (congrArg Prod.fst hcompile)
  rw [hcompile] at hprepared
  have hregistered : ∀ routine ∈ main :: compiledAmong added,
      latest.functions routine.identity = some (.compiled routine) := by
    intro routine hroutine
    rcases List.mem_cons.mp hroutine with rfl | hliteral
    · exact hfunction
    · have hentry : .function (.compiled routine) ∈ after.constants.entries.toList := by
        rw [hadded]
        exact List.mem_append_right _ (mem_of_mem_compiledAmong hliteral)
      exact hprepared.workspace.constants.valid _ (Array.mem_toList_iff.mp hentry)
  have hall : List.Forall₂ Definition.Describes (script.dumped engine.machine.nextIdentity)
      (main :: compiledAmong added) := .cons hmain hdescribes
  have hpairs := (List.forall₂_and_left _ _).mpr
    ⟨fun _ hmem ↦ hmem, ((List.forall₂_and_left _ _).mpr ⟨hregistered, hall.flip⟩).flip⟩
  rw [hdrop]
  refine hpairs.imp fun definition routine hpair ↦ ?_
  obtain ⟨hdefinition, hroutine, hdescribed⟩ := hpair
  obtain ⟨closure, hfound, hcode⟩ := hprepared.compiled _ _ hroutine
  rw [List.find?_append, (script.numbered_closures _).find?_eq (Script.mem_closures_of_dumped hdefinition)
    hdescribed.identity.symm] at hfound
  obtain rfl := Option.some.inj hfound
  exact ⟨hcode _ (.refl _) hsize, hdescribed.lastLine⟩

/-- When two engines compile a script, its functions are matched, and what stands for each other is shown alike. -/
theorem exists_covers (hmachine : engine.machine.Consistent known closures registry world)
    (hlisted : registry.Listed (engine.machine.constants.entries.toList ++ known))
    (hcompiled : compileScript engine.strict script ⟨engine.machine.constants, engine.machine.nextIdentity⟩ =
      .ok main after) (hsize : after.constants.size ≤ Word.indexLimit)
    (hmachine' : engine'.machine.Consistent known' closures' registry' world')
    (hlisted' : registry'.Listed (engine'.machine.constants.entries.toList ++ known'))
    (hcompiled' : compileScript engine'.strict script ⟨engine'.machine.constants, engine'.machine.nextIdentity⟩ =
      .ok main' after') (hsize' : after'.constants.size ≤ Word.indexLimit) :
    ∃ (matching : Matching) (likeness : Likeness), likeness.Covers matching after.constants after'.constants ∧
      likeness.Faithful ∧
        matching.Along engine.machine.nextIdentity engine'.machine.nextIdentity script.sites := by
  have hcompile := compile_of_compileScript hcompiled
  have hcompile' := compile_of_compileScript hcompiled'
  obtain ⟨-, -, -, -, -, hknown⟩ := hmachine.compile hlisted script
  obtain ⟨-, -, -, -, -, hknown'⟩ := hmachine'.compile hlisted' script
  obtain ⟨latest, hgrows, hprepared, -⟩ := hknown main (congrArg Prod.fst hcompile)
  obtain ⟨latest', hgrows', hprepared', -⟩ := hknown' main' (congrArg Prod.fst hcompile')
  have hnext := (hmachine.accepted_main (by rw [main?, hcompile]; rfl : engine.main? script = some main)).2.1
  have hnext' := (hmachine'.accepted_main (by rw [main?, hcompile']; rfl : engine'.main? script = some main')).2.1
  have hnone : Matching.Fits (fun _ _ ↦ False) registry registry' closures closures' engine.machine.nextIdentity
      engine'.machine.nextIdentity := ⟨by rintro _ _ _ _ ⟨⟩, by rintro _ _ ⟨⟩, by rintro _ _ _ _ ⟨⟩⟩
  have hfits := hnone.extend hgrows hgrows' (script.numbered_closures _) (script.numbered_closures _)
    (script.twins Matching.along_extend) (fun _ _ hfound ↦ hmachine.workspace.functions _ _ hfound)
    fun _ _ hfound ↦ hmachine'.workspace.functions _ _ hfound
  rw [← hnext, ← hnext'] at hfits
  have hcovers := hfits.covers hprepared hprepared' (by rw [hcompile]; exact hsize) (by rw [hcompile']; exact hsize')
  rw [hcompile, hcompile'] at hcovers
  exact ⟨_, _, hcovers, hfits.oneToOne.faithful _ _, Matching.along_extend⟩

end Functions

end Engine

/-! ### Sections of functions -/

/-- The names of the slots of a function: the receiver, the parameters, and the other variables that it declares. -/
def Closure.slotNames (closure : Closure) : List String :=
  SlotTable.receiverName :: closure.parameters ++
    (((declarationsOf closure.body.nodes).map Declaration.name).filter
      fun name ↦ name ∉ SlotTable.receiverName :: closure.parameters).eraseDups

/-- A section shows a function: its name, the numbers of its parameters and its slots, and the listing of its own
code. -/
def Closure.ShownBy (constants : ConstantTable) (closure : Closure) (text : String) : Prop :=
  ∃ routine : Routine, closure.Compiled constants routine ∧
    text = "== " ++ closure.name ++ " (params " ++ toString closure.parameters.length ++ ", slots " ++
      toString closure.slotNames.length ++ ") ==\n" ++ routine.unit.listing constants

/-- The section of the code of a function shows the function. -/
theorem Closure.Compiled.shownBy {closure : Closure} {constants : ConstantTable} {routine : Routine}
    (hcompiled : closure.Compiled constants routine) : closure.ShownBy constants (routine.section constants) := by
  obtain ⟨strict, line, last, slots, code, hslots, -, hunit⟩ := hcompiled.unit
  have hnames : slots.size = closure.slotNames.length := by
    rw [SlotTable.size, SlotTable.names_of_allocate hslots, slotNames]
  refine ⟨routine, hcompiled, ?_⟩
  have hparameters : routine.unit.parameterCount - 1 = closure.parameters.length := by
    rw [hunit]
    rfl
  have hcount : routine.unit.slotCount = closure.slotNames.length := by
    rw [hunit]
    exact hnames
  rw [Routine.section, hcompiled.name, hparameters, hcount]

/-! ### Dumps of sessions -/

section Sessions

variable {engine engine' : Engine} {known known' : List Value} {closures closures' : List Closure} {script : Script}
  {main : Routine}

/-- A dump of a script that an engine accepts, whatever the engine has done before, has one section for the body of the
script and behind it one for every function literal in it, in the order in which the literals are finished. It is the
same for every other engine that compiles as strictly. All it changes are the constants and the next identity, where it
only adds. -/
theorem Session.dump_eq (hsession : Session engine known closures) (haccepted : (engine.compile script).1 = .ok main)
    (hsize : (engine.dump script).2.machine.constants.size ≤ Word.indexLimit) :
    (∃ sections : List String,
      (engine.dump script).1 = .ok ("\n".intercalate sections) ∧
      List.Forall₂ (Closure.ShownBy (engine.dump script).2.machine.constants)
        (Closure.ofBody engine.machine.nextIdentity "main" [] script.body ::
          closuresOf engine.machine.nextIdentity script.body.nodes) sections) ∧
    (∀ (engine' : Engine) (known' : List Value) (closures' : List Closure), Session engine' known' closures' →
      engine'.strict = engine.strict → (engine'.dump script).2.machine.constants.size ≤ Word.indexLimit →
        (engine'.dump script).1 = (engine.dump script).1) ∧
    ∃ (constants : ConstantTable) (nextIdentity : Nat), engine.machine.constants.Extends constants ∧
      engine.machine.nextIdentity ≤ nextIdentity ∧
      (engine.dump script).2 =
        ⟨{ engine.machine with constants := constants, nextIdentity := nextIdentity }, engine.strict⟩ := by
  obtain ⟨after, hcompiled⟩ := Engine.exists_workspace haccepted
  have hdump := Engine.dump_of_compileScript hcompiled
  rw [hdump] at hsize ⊢
  obtain ⟨registry, world, hmachine, hlisted⟩ := hsession.consistent
  have hwritten := Engine.written_of_compileScript hmachine hlisted hcompiled hsize
  refine ⟨⟨_, rfl, ?_⟩, fun engine' known' closures' hsession' hstrict hsize' ↦ ?_, after.constants, after.nextIdentity,
    ?_, ?_, rfl⟩
  · rw [← script.map_dumped, List.forall₂_map_left_iff, List.forall₂_map_right_iff]
    exact hwritten.imp fun definition routine hroutine ↦ hroutine.compiled.shownBy
  · rcases compileScript_agrees engine.strict script ⟨engine.machine.constants, engine.machine.nextIdentity⟩
      ⟨engine'.machine.constants, engine'.machine.nextIdentity⟩ with ⟨_, main', _, after', _, hcompiled'⟩ |
      ⟨_, _, _, hrefused, _⟩
    · rw [← hstrict] at hcompiled'
      have hdump' := Engine.dump_of_compileScript hcompiled'
      rw [hdump'] at hsize' ⊢
      obtain ⟨registry', world', hmachine', hlisted'⟩ := hsession'.consistent
      have hwritten' := Engine.written_of_compileScript hmachine' hlisted' hcompiled' hsize'
      obtain ⟨matching, likeness, hcovers, hfaithful, halong⟩ := Engine.exists_covers hmachine hlisted hcompiled hsize
        hmachine' hlisted' hcompiled' hsize'
      have hsections := sections_eq_of_twins (script.twins_dumped halong) hcovers hfaithful hwritten hwritten'
      exact congrArg (fun sections ↦ Except.ok ("\n".intercalate sections)) hsections.symm
    · rw [hcompiled] at hrefused
      cases hrefused
  · exact (compileScript_accepts engine.strict script _ 0).2.1 main after hcompiled
  · have happends := (appends_compileScript engine.strict script _ _ hmachine.workspace.isFresh rfl main after
      hcompiled).1
    exact Nat.le_trans (Nat.le_add_right _ _) (Nat.le_of_eq happends.next.symm)

end Sessions

/-- What words can number for a script that is evaluated, they can number for one that is dumped. -/
theorem Engine.Addresses.dump_of_eval {engine : Engine} {known : List Value} {script : Script}
    (haddresses : engine.Addresses known (.eval script)) : engine.Addresses known (.dump script) :=
  ⟨haddresses.constants, haddresses.code, by rintro _ _ ⟨⟩⟩

/-- A dump is carried out without running code. -/
theorem Engine.perform_dump {engine next : Engine} {script : Script} {text : String}
    (hdump : engine.dump script = (.ok text, next)) (steps : Nat) :
    engine.perform steps (.dump script) = some (.text text, next) := by
  unfold Engine.perform
  dsimp only
  rw [hdump]

/-- An engine that does not compile strictly dumps the script of a cyclic object, with five constants more at most. -/
theorem Engine.exists_dump_cyclic {engine : Engine} (hstrict : engine.strict = false) :
    ∃ (main : Routine) (text : String) (next : Engine), (engine.compile Script.cyclic).1 = .ok main ∧
      engine.dump Script.cyclic = (.ok text, next) ∧ next.strict = false ∧
      next.machine.constants.size ≤ engine.machine.constants.size + 5 := by
  obtain ⟨main, after, hcompiled, -, hsize, -⟩ :=
    compileScript_cyclic ⟨engine.machine.constants, engine.machine.nextIdentity⟩
  rw [← hstrict] at hcompiled
  exact ⟨main, _, _, congrArg Prod.fst (compile_of_compileScript hcompiled), dump_of_compileScript hcompiled, hstrict,
    hsize⟩

/-- A second dump of the script of a cyclic object is the same as the first one, and has a section for the body of the
script and one for the function in it. -/
theorem Session.dump_eq_cyclic :
    ∃ (text : String) (next : Engine) (known : List Value) (closures : List Closure) (sections : List String),
      Session Engine.fresh [] [] ∧ Engine.fresh.dump Script.cyclic = (.ok text, next) ∧
        text = "\n".intercalate sections ∧ sections.length = 2 ∧ Session next known closures ∧
        (next.dump Script.cyclic).1 = .ok text := by
  obtain ⟨main, text, next, haccepted, hdump, hstrict, hsize⟩ := @Engine.exists_dump_cyclic Engine.fresh rfl
  obtain ⟨_, _, last, -, hdump', -, hsize'⟩ := Engine.exists_dump_cyclic hstrict
  have hlimit : Engine.fresh.machine.constants.size + 10 ≤ Word.indexLimit := by decide
  have hfresh : Session Engine.fresh [] [] := .standard _ _ _
  have hadmissible : (Command.dump Script.cyclic).Admissible [] := trivial
  have hnext := Session.step hfresh hadmissible Engine.addresses_cyclic.dump_of_eval (Engine.staysSmall_fresh _)
    (Engine.perform_dump hdump 0)
  obtain ⟨⟨sections, htext, hsections⟩, hsame, -⟩ := Session.dump_eq hfresh haccepted
    (by rw [hdump]; dsimp only; omega)
  have hagain := hsame _ _ _ hnext hstrict (by rw [hdump']; dsimp only; omega)
  rw [hdump] at htext hagain
  exact ⟨text, next, _, _, sections, hfresh, hdump, Except.ok.inj htext, hsections.length_eq.symm.trans rfl, hnext,
    hagain⟩

end ScriptMachine
