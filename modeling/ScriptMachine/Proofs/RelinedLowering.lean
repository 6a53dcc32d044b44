import ScriptMachine.Proofs.AssembledCode
import ScriptMachine.Proofs.LineErasure
import ScriptMachine.Proofs.Sites
import ScriptMachine.Proofs.SlotLayout

/-!
# Lines and the code of a program

The compiler hands the lines of the nodes on to the code, and nothing else depends on them. A node and the node without
lines have the same code up to the lines of its parts, over constant tables that are equal up to line tables
(`Lowering.erasesNode`), and assembling writes the same words whatever the lines are (`Fragment.unlined_assemble`),
although it looks at them when it shortens the line table.

So two scripts that differ in lines only are both compiled to the same function up to line tables, or both refused
with the same error up to its line (`compileScript_relined`).
-/

set_option autoImplicit false
set_option relaxedAutoImplicit false

namespace ScriptMachine

/-! ### Fragments without lines -/

/-- An emission on line zero. -/
def Emission.unlined : Emission → Emission
  | .plain instruction _ => .plain instruction 0
  | .skip distance _ => .skip distance 0
  | .skipIfFalse distance _ => .skipIfFalse distance 0

/-- A fragment with line zero everywhere. -/
def Fragment.unlined (code : Fragment) : Fragment :=
  code.map Emission.unlined

namespace Fragment

variable {code code' more more' : Fragment}

theorem unlined_append (code more : Fragment) : unlined (code ++ more) = unlined code ++ unlined more :=
  List.map_append

/-- Lines take up no words. -/
theorem size_unlined (code : Fragment) : size (unlined code) = size code := by
  induction code with
  | nil => rfl
  | cons emission rest ih =>
    have hsize : emission.unlined.size = emission.size := by cases emission <;> rfl
    rw [unlined, List.map_cons, size, size, hsize]
    exact congrArg _ ih

theorem size_eq_of_unlined (hcode : unlined code = unlined code') : size code = size code' := by
  rw [← size_unlined code, hcode, size_unlined]

/-- Lines are not among the words of a fragment. -/
theorem wordsAt_unlined (offset : Nat) (code : Fragment) : wordsAt offset (unlined code) = wordsAt offset code := by
  induction code generalizing offset with
  | nil => rfl
  | cons emission rest ih =>
    have hplace : emission.unlined.place offset = emission.place offset := by cases emission <;> rfl
    have hsize : emission.unlined.size = emission.size := by cases emission <;> rfl
    rw [unlined, List.map_cons, wordsAt, wordsAt, hplace, hsize]
    exact congrArg _ (ih _)

/-- Fragments that differ in lines only are assembled to the same words. -/
theorem unlined_assemble (hcode : unlined code = unlined code') (parameterCount slotCount : Nat) :
    (code.assemble parameterCount slotCount).unlined = (code'.assemble parameterCount slotCount).unlined := by
  have hwords : (code.assemble parameterCount slotCount).code = (code'.assemble parameterCount slotCount).code := by
    rw [← Array.toList_inj, toList_assemble, toList_assemble, ← wordsAt_unlined 0 code, hcode, wordsAt_unlined]
  unfold CodeUnit.unlined
  rw [hwords]
  rfl

theorem unlined_branch {condition condition' thenCode thenCode' elseCode elseCode' : Fragment}
    (hcondition : unlined condition = unlined condition') (hthen : unlined thenCode = unlined thenCode')
    (helse : unlined elseCode = unlined elseCode') (line line' : UInt32) :
    unlined (Lowering.branch condition thenCode elseCode line) =
      unlined (Lowering.branch condition' thenCode' elseCode' line') := by
  simp only [Lowering.branch, unlined_append, hcondition, hthen, helse, size_eq_of_unlined hthen,
    size_eq_of_unlined helse]
  rfl

end Fragment

/-! ### Trees without lines -/

theorem unlinedOf_eq_map (nodes : List Node) : unlinedOf nodes = nodes.map Node.unlined := by
  induction nodes with
  | nil => rfl
  | cons node rest ih => rw [unlinedOf, ih, List.map_cons]

theorem map_name_unlinedFields (fields : List (Field Node)) :
    (unlinedFields fields).map Field.name = fields.map Field.name := by
  induction fields with
  | nil => rfl
  | cons field rest ih => rw [unlinedFields, List.map_cons, ih, List.map_cons]

theorem Node.isStatement_unlined (node : Node) : node.unlined.isStatement = node.isStatement := by
  cases node <;> rfl

/-! ### Slots -/

/-- A declaration on line zero. -/
def Declaration.unlined (declaration : Declaration) : Declaration :=
  ⟨declaration.name, 0⟩

theorem declarationsOf_unlinedOf {nodes : List Node}
    (hnodes : ∀ node ∈ nodes, node.unlined.declarations = node.declarations.map Declaration.unlined) :
    declarationsOf (unlinedOf nodes) = (declarationsOf nodes).map Declaration.unlined := by
  induction nodes with
  | nil => rfl
  | cons node rest ih =>
    rw [unlinedOf, declarationsOf, declarationsOf, List.map_append, hnodes node List.mem_cons_self,
      ih fun other hother ↦ hnodes other (List.mem_cons_of_mem _ hother)]

theorem fieldDeclarations_unlinedFields {fields : List (Field Node)}
    (hfields : ∀ field ∈ fields,
      field.value.unlined.declarations = field.value.declarations.map Declaration.unlined) :
    fieldDeclarations (unlinedFields fields) = (fieldDeclarations fields).map Declaration.unlined := by
  induction fields with
  | nil => rfl
  | cons field rest ih =>
    rw [unlinedFields, fieldDeclarations, fieldDeclarations, List.map_append, hfields field List.mem_cons_self,
      ih fun other hother ↦ hfields other (List.mem_cons_of_mem _ hother)]

/-- A node without lines declares the same variables. -/
theorem Node.declarations_unlined (node : Node) :
    node.unlined.declarations = node.declarations.map Declaration.unlined := by
  induction node using Node.induction with
  | block body hbody => exact declarationsOf_unlinedOf hbody
  | literal value line | access name line | function name parameters body line hbody => rfl
  | call callee arguments line hcallee harguments | methodCall callee name arguments line hcallee harguments =>
    rw [unlined, declarations, declarations, List.map_append, hcallee, declarationsOf_unlinedOf harguments]
  | assignment name value declares line hvalue =>
    rw [unlined, declarations, declarations, List.map_append, hvalue]
    cases declares <;> rfl
  | ret value line hvalue | fieldAccess value name line hvalue => exact hvalue
  | conditional condition thenBlock elseBlock line hcondition hthen helse =>
    rw [unlined, declarations, declarations, List.map_append, List.map_append, hcondition,
      declarationsOf_unlinedOf hthen, declarationsOf_unlinedOf helse]
  | object fields line hfields => exact fieldDeclarations_unlinedFields hfields
  | fieldAssignment receiver name value line hreceiver hvalue =>
    rw [unlined, declarations, declarations, List.map_append, hreceiver, hvalue]

namespace SlotTable

/-- A row of declarations that differ in lines only ends in the same table, or with the same error up to its line. -/
theorem foldlM_unlined {α : Type} {declare declare' : SlotTable → α → Except CompileError SlotTable} {view : α → α}
    (hdeclare : ∀ (table : SlotTable) (member : α),
      declare' table (view member) = (declare table member).mapError CompileError.unlined)
    (table : SlotTable) (members : List α) :
    (members.map view).foldlM declare' table = (members.foldlM declare table).mapError CompileError.unlined := by
  induction members generalizing table with
  | nil => rfl
  | cons member rest ih =>
    rw [List.map_cons, List.foldlM_cons, List.foldlM_cons, hdeclare]
    cases declare table member with
    | error fault => rfl
    | ok next => exact ih next

/-- A function without lines has the same slots. -/
theorem allocate_unlined (parameters : List String) (body : Block Node) (strict : Bool) (line : UInt32) :
    allocate parameters body.unlined strict 0 =
      (allocate parameters body strict line).mapError CompileError.unlined := by
  have hparameters := @foldlM_unlined String (declareParameter line) (declareParameter 0) id (fun table parameter ↦ by
    rw [declareParameter_eq, declareParameter_eq, id]
    split_ifs <;> rfl) ofReceiver parameters
  have hvariables := fun table ↦ @foldlM_unlined Declaration (declareVariable strict) (declareVariable strict)
    Declaration.unlined (fun table declaration ↦ by
      rw [declareVariable_eq, declareVariable_eq, Declaration.unlined]
      split_ifs <;> rfl) table (declarationsOf body.nodes)
  rw [List.map_id] at hparameters
  rw [← declarationsOf_unlinedOf fun node _ ↦ node.declarations_unlined] at hvariables
  unfold allocate
  rw [hparameters]
  cases parameters.foldlM (declareParameter line) ofReceiver with
  | error fault => rfl
  | ok table => exact hvariables table

end SlotTable

/-! ### Workspaces -/

/-- Two workspaces are equal up to line tables. -/
structure Workspace.Relined (workspace workspace' : Workspace) : Prop where
  constants : workspace.constants.Relined workspace'.constants
  nextIdentity : workspace.nextIdentity = workspace'.nextIdentity

namespace Workspace.Relined

variable {first second third : Workspace}

theorem refl (workspace : Workspace) : workspace.Relined workspace :=
  ⟨.refl _, rfl⟩

theorem symm (hrelined : first.Relined second) : second.Relined first :=
  ⟨hrelined.constants.symm, hrelined.nextIdentity.symm⟩

theorem trans (hfirst : first.Relined second) (hsecond : second.Relined third) : first.Relined third :=
  ⟨hfirst.constants.trans hsecond.constants, hfirst.nextIdentity.trans hsecond.nextIdentity⟩

end Workspace.Relined

/-! ### Lowering -/

namespace Lowering

/-- Errors of the compiler are equal up to their lines. -/
def SameError (fault fault' : CompileError) : Prop :=
  fault.unlined = fault'.unlined

/-- Two parts of a compilation do the same up to lines. -/
abbrev Relined {α : Type} (answers : α → α → Prop) (part part' : Lowering α) : Prop :=
  ActsTogether Workspace.Relined SameError answers part part'

/-- Two parts of a compilation lead to the same code up to lines. -/
abbrev SameCode (part part' : Lowering Fragment) : Prop :=
  Relined (fun code code' ↦ Fragment.unlined code = Fragment.unlined code') part part'

theorem relined_constant {value value' : Value} (hvalue : value.unlined = value'.unlined) :
    Relined Eq (constant value) (constant value') := by
  intro workspace workspace' hrelined
  obtain ⟨hword, hconstants⟩ := hrelined.constants.box hvalue
  exact .ok hword ⟨hconstants, hrelined.nextIdentity⟩

theorem relined_freshIdentity : Relined Eq freshIdentity freshIdentity := by
  intro workspace workspace' hrelined
  exact .ok hrelined.nextIdentity ⟨hrelined.constants, congrArg (· + 1) hrelined.nextIdentity⟩

theorem relined_literalWord (value : Literal) : Relined Eq (literalWord value) (literalWord value) := by
  have hconstant : ∀ value : Value, Relined Eq (constant value) (constant value) := fun _ ↦ relined_constant rfl
  cases value <;> rw [literalWord]
  case integer value =>
    split
    · exact .pure rfl
    · exact hconstant (.integer value)
  case text content => exact hconstant (.text content)
  case boolean value => exact hconstant (.boolean value)
  case undefined => exact .pure rfl

/-- A node that has the same code up to lines when its lines are taken away. -/
def ErasesNode (node : Node) : Prop :=
  ∀ (strict : Bool) (slots : SlotTable), SameCode (lowerNode strict slots node) (lowerNode strict slots node.unlined)

variable {strict : Bool} {slots : SlotTable}

theorem unlined_valueOf (node : Node) {code code' : Fragment} (hcode : code.unlined = code'.unlined) :
    (valueOf node code).unlined = (valueOf node.unlined code').unlined := by
  unfold valueOf
  rw [node.isStatement_unlined]
  split_ifs
  · rw [Fragment.unlined_append, Fragment.unlined_append, hcode]
    rfl
  · exact hcode

theorem unlined_statementOf (node : Node) {code code' : Fragment} (hcode : code.unlined = code'.unlined) :
    (statementOf node code).unlined = (statementOf node.unlined code').unlined := by
  unfold statementOf
  rw [node.isStatement_unlined]
  split_ifs
  · exact hcode
  · rw [Fragment.unlined_append, Fragment.unlined_append, hcode]
    rfl

theorem relined_lowerValues {nodes : List Node} (hnodes : ∀ node ∈ nodes, ErasesNode node) :
    SameCode (lowerValues strict slots nodes) (lowerValues strict slots (unlinedOf nodes)) := by
  induction nodes with
  | nil => exact .pure rfl
  | cons node rest ih =>
    refine (hnodes node List.mem_cons_self strict slots).bind fun code code' hcode ↦ ?_
    refine (ih fun other hother ↦ hnodes other (List.mem_cons_of_mem _ hother)).bind fun more more' hmore ↦ .pure ?_
    rw [Fragment.unlined_append, Fragment.unlined_append, unlined_valueOf node hcode, hmore]

theorem relined_lowerStatements {nodes : List Node} (hnodes : ∀ node ∈ nodes, ErasesNode node) :
    SameCode (lowerStatements strict slots nodes) (lowerStatements strict slots (unlinedOf nodes)) := by
  induction nodes with
  | nil => exact .pure rfl
  | cons node rest ih =>
    refine (hnodes node List.mem_cons_self strict slots).bind fun code code' hcode ↦ ?_
    refine (ih fun other hother ↦ hnodes other (List.mem_cons_of_mem _ hother)).bind fun more more' hmore ↦ .pure ?_
    rw [Fragment.unlined_append, Fragment.unlined_append, unlined_statementOf node hcode, hmore]

theorem relined_lowerFields {fields : List (Field Node)} (hfields : ∀ field ∈ fields, ErasesNode field.value) :
    SameCode (lowerFields strict slots fields) (lowerFields strict slots (unlinedFields fields)) := by
  induction fields with
  | nil => exact .pure rfl
  | cons field rest ih =>
    refine (hfields field List.mem_cons_self strict slots).bind fun code code' hcode ↦ ?_
    refine (ih fun other hother ↦ hfields other (List.mem_cons_of_mem _ hother)).bind fun more more' hmore ↦ .pure ?_
    rw [Fragment.unlined_append, Fragment.unlined_append, unlined_valueOf field.value hcode, hmore]

/-- A function without lines is compiled to the same function up to its line table. -/
theorem relined_routineOf {body : Block Node} (hbody : ∀ node ∈ body.nodes, ErasesNode node) (name : String)
    (parameters : List String) (line : UInt32) :
    Relined (fun routine routine' ↦ routine.unlined = routine'.unlined)
      (routineOf strict name parameters body line fun slots ↦ lowerStatements strict slots body.nodes)
      (routineOf strict name parameters body.unlined 0
        fun slots ↦ lowerStatements strict slots body.unlined.nodes) := by
  unfold routineOf
  rw [SlotTable.allocate_unlined parameters body strict line]
  cases SlotTable.allocate parameters body strict line with
  | error fault =>
    refine .throw ?_
    cases fault <;> rfl
  | ok slots =>
    refine (relined_lowerStatements hbody).bind fun code code' hcode ↦ ?_
    refine relined_freshIdentity.bind ?_
    rintro identity _ rfl
    refine .pure ?_
    have hcomplete : Fragment.unlined (code ++ undefinedAt (endLine body line) ++ [.plain .ret (endLine body line)]) =
        Fragment.unlined (code' ++ undefinedAt (endLine body.unlined 0) ++ [.plain .ret (endLine body.unlined 0)]) := by
      simp only [Fragment.unlined_append, hcode]
      rfl
    unfold Routine.unlined
    rw [Fragment.unlined_assemble hcomplete]

/-- Every node has the same code up to lines when its lines are taken away. -/
theorem erasesNode (node : Node) : ErasesNode node := by
  induction node using Node.induction with
  | block body hbody =>
    intro strict slots
    exact relined_lowerStatements hbody
  | literal value line =>
    intro strict slots
    refine (relined_literalWord value).bind ?_
    rintro word _ rfl
    exact .pure rfl
  | call callee arguments line hcallee harguments =>
    intro strict slots
    rw [Node.unlined, lowerNode, lowerNode]
    refine (hcallee strict slots).bind fun code code' hcode ↦ ?_
    refine (relined_lowerValues harguments).bind fun more more' hmore ↦ .pure ?_
    rw [unlinedOf_eq_map, List.length_map]
    simp only [Fragment.unlined_append, unlined_valueOf callee hcode, hmore]
    rfl
  | access name line =>
    intro strict slots
    rw [Node.unlined, lowerNode, lowerNode]
    cases slots.slotOf? name with
    | some slot => exact .pure rfl
    | none =>
      refine (relined_constant rfl).bind ?_
      rintro word _ rfl
      exact .pure rfl
  | assignment name value declares line hvalue =>
    intro strict slots
    rw [Node.unlined, lowerNode, lowerNode]
    refine (hvalue strict slots).bind fun code code' hcode ↦ ?_
    cases slots.slotOf? name with
    | none => exact .throw rfl
    | some slot =>
      refine .pure ?_
      rw [Fragment.unlined_append, Fragment.unlined_append, unlined_valueOf value hcode]
      rfl
  | function name parameters body line hbody =>
    intro strict slots
    rw [Node.unlined, lowerNode, lowerNode]
    refine (relined_routineOf hbody (name.getD anonymous) parameters line).bind fun routine routine' hroutine ↦ ?_
    have hfunction : (Value.function (.compiled routine)).unlined = (Value.function (.compiled routine')).unlined :=
      congrArg (fun found ↦ Value.function (.compiled found)) hroutine
    refine (relined_constant hfunction).bind ?_
    rintro word _ rfl
    cases name with
    | none => exact .pure rfl
    | some bound =>
      refine (relined_constant rfl).bind ?_
      rintro nameWord _ rfl
      exact .pure rfl
  | ret value line hvalue =>
    intro strict slots
    rw [Node.unlined, lowerNode, lowerNode]
    refine (hvalue strict slots).bind fun code code' hcode ↦ .pure ?_
    rw [Fragment.unlined_append, Fragment.unlined_append, unlined_valueOf value hcode]
    rfl
  | conditional condition thenBlock elseBlock line hcondition hthen helse =>
    intro strict slots
    rw [Node.unlined, lowerNode, lowerNode]
    refine (hcondition strict slots).bind fun code code' hcode ↦ ?_
    refine (relined_lowerStatements hthen).bind fun thenCode thenCode' hthenCode ↦ ?_
    refine (relined_lowerStatements helse).bind fun elseCode elseCode' helseCode ↦ .pure ?_
    exact Fragment.unlined_branch (unlined_valueOf condition hcode) hthenCode helseCode _ _
  | object fields line hfields =>
    intro strict slots
    rw [Node.unlined, lowerNode, lowerNode, map_name_unlinedFields]
    cases firstRepeated? [] (fields.map Field.name) with
    | some name => exact .throw rfl
    | none =>
      refine (relined_lowerFields hfields).bind fun code code' hcode ↦ ?_
      refine relined_freshIdentity.bind ?_
      rintro identity _ rfl
      refine (relined_constant rfl).bind ?_
      rintro word _ rfl
      refine .pure ?_
      rw [Fragment.unlined_append, Fragment.unlined_append, hcode]
      rfl
  | fieldAccess receiver name line hreceiver =>
    intro strict slots
    rw [Node.unlined, lowerNode, lowerNode]
    refine (hreceiver strict slots).bind fun code code' hcode ↦ ?_
    refine (relined_constant rfl).bind ?_
    rintro word _ rfl
    refine .pure ?_
    rw [Fragment.unlined_append, Fragment.unlined_append, unlined_valueOf receiver hcode]
    rfl
  | fieldAssignment receiver name value line hreceiver hvalue =>
    intro strict slots
    rw [Node.unlined, lowerNode, lowerNode]
    refine (hreceiver strict slots).bind fun code code' hcode ↦ ?_
    refine (hvalue strict slots).bind fun valueCode valueCode' hvalueCode ↦ ?_
    refine (relined_constant rfl).bind ?_
    rintro word _ rfl
    refine .pure ?_
    simp only [Fragment.unlined_append, unlined_valueOf receiver hcode, unlined_valueOf value hvalueCode]
    rfl
  | methodCall receiver name arguments line hreceiver harguments =>
    intro strict slots
    rw [Node.unlined, lowerNode, lowerNode]
    refine (hreceiver strict slots).bind fun code code' hcode ↦ ?_
    refine (relined_constant rfl).bind ?_
    rintro word _ rfl
    refine (relined_lowerValues harguments).bind fun more more' hmore ↦ .pure ?_
    rw [unlinedOf_eq_map, List.length_map]
    simp only [Fragment.unlined_append, unlined_valueOf receiver hcode, hmore]
    rfl

end Lowering

/-! ### Scripts -/

/-- Two scripts that differ in lines only are compiled alike from workspaces that are equal up to line tables. -/
theorem compileScript_relined (strict : Bool) {script script' : Script} (hscript : script.unlined = script'.unlined)
    {workspace workspace' : Workspace} (hworkspace : workspace.Relined workspace') :
    EndsTogether Workspace.Relined Lowering.SameError (fun main main' ↦ main.unlined = main'.unlined)
      (compileScript strict script workspace) (compileScript strict script' workspace') := by
  have herased : ∀ (script : Script) {workspace workspace' : Workspace}, workspace.Relined workspace' →
      EndsTogether Workspace.Relined Lowering.SameError (fun main main' : Routine ↦ main.unlined = main'.unlined)
        (compileScript strict script workspace) (compileScript strict script.unlined workspace') :=
    fun script _ _ hworkspace ↦ Lowering.relined_routineOf (fun node _ ↦ Lowering.erasesNode node) "main" []
      script.body.line _ _ hworkspace
  have hfirst := herased script hworkspace
  have hsecond := herased script' (.refl workspace')
  rw [hscript] at hfirst
  generalize compileScript strict script workspace = result at hfirst
  generalize compileScript strict script' workspace' = result' at hsecond
  generalize compileScript strict script'.unlined workspace' = erased at hfirst hsecond
  cases hfirst with
  | ok hmain hafter =>
    cases hsecond with
    | ok hmain' hafter' => exact .ok (hmain.trans hmain'.symm) (hafter.trans hafter'.symm)
  | error hfault hafter =>
    cases hsecond with
    | error hfault' hafter' => exact .error (hfault.trans hfault'.symm) (hafter.trans hafter'.symm)

end ScriptMachine
