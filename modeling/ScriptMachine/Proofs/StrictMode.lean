import ScriptMachine.Proofs.SlotOrder
import ScriptMachine.Proofs.WrittenSessions

/-!
# The strict mode

The strict mode only refuses. Whatever it accepts is compiled to the same code over the same constants without
it (`Lowering.Relaxes`), and of the complaints about a script it has those about variables that are declared
again more than the other mode: `Script.complaints` lists them with their reasons, and the complaints of either
mode are the ones that count in it (`Script.violations_eq_complaints`).

`compileScript_relaxes` puts both together: a script that the strict mode refuses for another reason is refused
with the same error without it, and a redeclaration that is reported without it is one of a parameter.
-/

set_option autoImplicit false
set_option relaxedAutoImplicit false

namespace ScriptMachine

/-! ### The slots of both modes -/

/-- Slots that are allocated in the strict mode are allocated without it. -/
theorem SlotTable.allocate_of_strict {parameters : List String} {body : Block Node} {line : UInt32}
    {slots : SlotTable} (hslots : allocate parameters body true line = .ok slots) :
    allocate parameters body false line = .ok slots := by
  cases hrelaxed : allocate parameters body false line with
  | ok relaxed => rw [allocate_unique hslots hrelaxed]
  | error fault =>
    -- without the strict mode only a parameter can be declared again, and the strict mode refuses that
    rcases allocate_eq_error_iff.mp hrelaxed with ⟨hparameters, hbefore, hagain⟩ | ⟨⟨⟩, -, -, -⟩
    have hrefused := allocate_eq_error_iff.mpr
      (.parameter hparameters hbefore hagain : Redeclares true parameters body line _)
    rw [hslots] at hrefused
    cases hrefused

/-! ### The code of both modes -/

namespace Lowering

variable {α β : Type}

/-- Whenever a part of a compilation comes to an end, another part does so with the same answer and the same
constants. -/
def Relaxes (part relaxed : Lowering α) : Prop :=
  ∀ (workspace : Workspace) (answer : α) (after : Workspace),
    part workspace = .ok answer after → relaxed workspace = .ok answer after

namespace Relaxes

theorem refl (part : Lowering α) : Relaxes part part :=
  fun _ _ _ hresult ↦ hresult

theorem bind {part relaxed : Lowering α} {rest relaxedRest : α → Lowering β} (hpart : Relaxes part relaxed)
    (hrest : ∀ answer : α, Relaxes (rest answer) (relaxedRest answer)) :
    Relaxes (part >>= rest) (relaxed >>= relaxedRest) := by
  intro workspace answer after hresult
  simp only [Bind.bind, EStateM.bind] at hresult ⊢
  cases hfirst : part workspace with
  | error fault between =>
    rw [hfirst] at hresult
    cases hresult
  | ok found between =>
    rw [hfirst] at hresult
    rw [hpart workspace found between hfirst]
    exact hrest found between answer after hresult

end Relaxes

/-- A node that the strict mode accepts has the same code without it. -/
def RelaxesNode (node : Node) : Prop :=
  ∀ slots : SlotTable, Relaxes (lowerNode true slots node) (lowerNode false slots node)

theorem relaxes_lowerValues {nodes : List Node} (hnodes : ∀ node ∈ nodes, RelaxesNode node) (slots : SlotTable) :
    Relaxes (lowerValues true slots nodes) (lowerValues false slots nodes) := by
  induction nodes with
  | nil => exact .refl _
  | cons node rest ih =>
    refine (hnodes node List.mem_cons_self slots).bind fun code ↦ ?_
    exact (ih fun other hother ↦ hnodes other (List.mem_cons_of_mem _ hother)).bind fun restCode ↦ .refl _

theorem relaxes_lowerStatements {nodes : List Node} (hnodes : ∀ node ∈ nodes, RelaxesNode node)
    (slots : SlotTable) : Relaxes (lowerStatements true slots nodes) (lowerStatements false slots nodes) := by
  induction nodes with
  | nil => exact .refl _
  | cons node rest ih =>
    refine (hnodes node List.mem_cons_self slots).bind fun code ↦ ?_
    exact (ih fun other hother ↦ hnodes other (List.mem_cons_of_mem _ hother)).bind fun restCode ↦ .refl _

theorem relaxes_lowerFields {fields : List (Field Node)} (hfields : ∀ field ∈ fields, RelaxesNode field.value)
    (slots : SlotTable) : Relaxes (lowerFields true slots fields) (lowerFields false slots fields) := by
  induction fields with
  | nil => exact .refl _
  | cons field rest ih =>
    refine (hfields field List.mem_cons_self slots).bind fun code ↦ ?_
    exact (ih fun other hother ↦ hfields other (List.mem_cons_of_mem _ hother)).bind fun restCode ↦ .refl _

/-- A function that the strict mode accepts has the same slots and the same code without it. -/
theorem relaxes_routineOf {body : Block Node} (hbody : ∀ node ∈ body.nodes, RelaxesNode node) (name : String)
    (parameters : List String) (line : UInt32) :
    Relaxes (routineOf true name parameters body line fun slots ↦ lowerStatements true slots body.nodes)
      (routineOf false name parameters body line fun slots ↦ lowerStatements false slots body.nodes) := by
  unfold routineOf
  cases hslots : SlotTable.allocate parameters body true line with
  | error fault =>
    rintro workspace answer after ⟨⟩
  | ok slots =>
    rw [SlotTable.allocate_of_strict hslots]
    exact (relaxes_lowerStatements hbody slots).bind fun code ↦ .refl _

/-- A node that the strict mode accepts has the same code without it. -/
theorem relaxesNode (node : Node) : RelaxesNode node := by
  induction node using Node.induction with
  | block body hbody => exact relaxes_lowerStatements hbody
  | literal value line | access name line => exact fun slots ↦ .refl _
  | call callee arguments line hcallee harguments =>
    exact fun slots ↦ (hcallee slots).bind fun code ↦ (relaxes_lowerValues harguments slots).bind fun _ ↦ .refl _
  | assignment name value declares line hvalue | ret value line hvalue | fieldAccess value name line hvalue =>
    exact fun slots ↦ (hvalue slots).bind fun code ↦ .refl _
  | function name parameters body line hbody =>
    exact fun slots ↦ (relaxes_routineOf hbody (name.getD anonymous) parameters line).bind fun routine ↦ .refl _
  | conditional condition thenBlock elseBlock line hcondition hthen helse =>
    intro slots
    refine (hcondition slots).bind fun code ↦ (relaxes_lowerStatements hthen slots).bind fun thenCode ↦ ?_
    exact (relaxes_lowerStatements helse slots).bind fun elseCode ↦ .refl _
  | object fields line hfields =>
    intro slots
    rw [lowerNode, lowerNode]
    cases firstRepeated? [] (fields.map Field.name) with
    | some name => exact .refl _
    | none => exact (relaxes_lowerFields hfields slots).bind fun code ↦ .refl _
  | fieldAssignment receiver name value line hreceiver hvalue =>
    exact fun slots ↦ (hreceiver slots).bind fun code ↦ (hvalue slots).bind fun valueCode ↦ .refl _
  | methodCall receiver name arguments line hreceiver harguments =>
    intro slots
    refine (hreceiver slots).bind fun code ↦ (Relaxes.refl _).bind fun word ↦ ?_
    exact (relaxes_lowerValues harguments slots).bind fun argumentCode ↦ .refl _

end Lowering

/-! ### Complaints with their reasons -/

/-- A complaint: about a parameter of a function on some line, about a variable that is declared again, about an
assignment without a variable, or about an object that names a field twice. -/
inductive Complaint where
  | parameter (name : String) (line : UInt32)
  | declaration (declared : Declaration)
  | assignment (name : String) (line : UInt32)
  | object (name : String) (line : UInt32)
  deriving DecidableEq, Repr

namespace Complaint

/-- The error that a complaint is reported as. -/
def error : Complaint → CompileError
  | .parameter name line => .redeclaration name line
  | .declaration declared => .redeclaration declared.name declared.line
  | .assignment name line => .unresolvedLocal name line
  | .object name line => .duplicateField name line

/-- A variable that is declared again counts in the strict mode only. -/
def countsIn (strict : Bool) : Complaint → Bool
  | .declaration _ => strict
  | _ => true

/-- All complaints count in the strict mode. -/
theorem countsIn_true (complaint : Complaint) : complaint.countsIn true = true := by
  cases complaint <;> rfl

/-- What does not count without the strict mode is about a variable. -/
theorem exists_declaration_of_not_countsIn {complaint : Complaint} (hnot : ¬ complaint.countsIn false = true) :
    ∃ declared : Declaration, complaint = .declaration declared := by
  cases complaint with
  | declaration declared => exact ⟨declared, rfl⟩
  | parameter name line | assignment name line | object name line => exact absurd rfl hnot

end Complaint

/-- The complaints about the parameters and the variables of a function. -/
def repeatedIn (parameters : List String) (body : Block Node) (line : UInt32) : List Complaint :=
  (repetitions id [SlotTable.receiverName] parameters).map (fun name ↦ .parameter name line) ++
    (repetitions Declaration.name (SlotTable.receiverName :: parameters) body.declared).map .declaration

mutual

/-- The complaints about a node of a function with some names for variables, in the order of evaluation. -/
def Node.complaints (scope : List String) : Node → List Complaint
  | .block body => complaintsOf scope body.nodes
  | .literal _ _ => []
  | .call callee arguments _ => callee.complaints scope ++ complaintsOf scope arguments
  | .access _ _ => []
  | .assignment name value declares line =>
    value.complaints scope ++ if declares = true ∨ name ∈ scope then [] else [.assignment name line]
  | .function _ parameters body line =>
    repeatedIn parameters body line ++ complaintsOf (scopeOf parameters body) body.nodes
  | .ret value _ => value.complaints scope
  | .conditional condition thenBlock elseBlock _ =>
    condition.complaints scope ++ complaintsOf scope thenBlock.nodes ++ complaintsOf scope elseBlock.nodes
  | .object fields line =>
    (repetitions id [] (fields.map Field.name)).map (fun name ↦ .object name line) ++
      fieldComplaints scope fields
  | .fieldAccess receiver _ _ => receiver.complaints scope
  | .fieldAssignment receiver _ value _ => receiver.complaints scope ++ value.complaints scope
  | .methodCall receiver _ arguments _ => receiver.complaints scope ++ complaintsOf scope arguments

/-- The complaints about several nodes. -/
def complaintsOf (scope : List String) : List Node → List Complaint
  | [] => []
  | node :: rest => node.complaints scope ++ complaintsOf scope rest

/-- The complaints about the initial values of fields. -/
def fieldComplaints (scope : List String) : List (Field Node) → List Complaint
  | [] => []
  | field :: rest => field.value.complaints scope ++ fieldComplaints scope rest

end

/-- The complaints about a script. -/
def Script.complaints (script : Script) : List Complaint :=
  repeatedIn [] script.body script.body.line ++ complaintsOf (scopeOf [] script.body) script.body.nodes

/-- The errors of the complaints that count in a mode. -/
def errorsOf (strict : Bool) (complaints : List Complaint) : List CompileError :=
  (complaints.filter (Complaint.countsIn strict)).map Complaint.error

section Violations

variable {strict : Bool}

theorem errorsOf_append (complaints more : List Complaint) :
    errorsOf strict (complaints ++ more) = errorsOf strict complaints ++ errorsOf strict more := by
  rw [errorsOf, List.filter_append, List.map_append, errorsOf, errorsOf]

theorem redeclarations_eq_repeatedIn (parameters : List String) (body : Block Node) (line : UInt32) :
    redeclarations strict parameters body line = errorsOf strict (repeatedIn parameters body line) := by
  cases strict <;> simp [redeclarations, repeatedIn, errorsOf, Complaint.countsIn, Complaint.error, List.filter_map,
    Function.comp_def]

theorem violationsOf_eq_complaintsOf {nodes : List Node}
    (hnodes : ∀ node ∈ nodes, ∀ scope : List String,
      node.violations strict scope = errorsOf strict (node.complaints scope))
    (scope : List String) : violationsOf strict scope nodes = errorsOf strict (complaintsOf scope nodes) := by
  induction nodes with
  | nil => rfl
  | cons node rest ih =>
    rw [violationsOf, complaintsOf, errorsOf_append, hnodes node List.mem_cons_self,
      ih fun other hother ↦ hnodes other (List.mem_cons_of_mem _ hother)]

theorem fieldViolations_eq_fieldComplaints {fields : List (Field Node)}
    (hfields : ∀ field ∈ fields, ∀ scope : List String,
      field.value.violations strict scope = errorsOf strict (field.value.complaints scope))
    (scope : List String) : fieldViolations strict scope fields = errorsOf strict (fieldComplaints scope fields) := by
  induction fields with
  | nil => rfl
  | cons field rest ih =>
    rw [fieldViolations, fieldComplaints, errorsOf_append, hfields field List.mem_cons_self,
      ih fun other hother ↦ hfields other (List.mem_cons_of_mem _ hother)]

/-- What is wrong with a node in a mode are the complaints that count in it. -/
theorem Node.violations_eq_complaints (node : Node) (scope : List String) :
    node.violations strict scope = errorsOf strict (node.complaints scope) := by
  induction node using Node.induction generalizing scope with
  | block body hbody =>
    rw [violations, complaints]
    exact violationsOf_eq_complaintsOf hbody scope
  | literal value line | access name line => rfl
  | call callee arguments line hcallee harguments =>
    rw [violations, complaints, errorsOf_append, hcallee, violationsOf_eq_complaintsOf harguments]
  | assignment name value declares line hvalue =>
    rw [violations, complaints, errorsOf_append, hvalue]
    split_ifs <;> rfl
  | function name parameters body line hbody =>
    rw [violations, complaints, errorsOf_append, redeclarations_eq_repeatedIn, violationsOf_eq_complaintsOf hbody]
  | ret value line hvalue | fieldAccess value name line hvalue => exact hvalue scope
  | conditional condition thenBlock elseBlock line hcondition hthen helse =>
    rw [violations, complaints, errorsOf_append, errorsOf_append, hcondition, violationsOf_eq_complaintsOf hthen,
      violationsOf_eq_complaintsOf helse]
  | object fields line hfields =>
    rw [violations, complaints, errorsOf_append, fieldViolations_eq_fieldComplaints hfields]
    simp [errorsOf, Complaint.countsIn, Complaint.error, List.filter_map, Function.comp_def]
  | fieldAssignment receiver name value line hreceiver hvalue =>
    rw [violations, complaints, errorsOf_append, hreceiver, hvalue]
  | methodCall receiver name arguments line hreceiver harguments =>
    rw [violations, complaints, errorsOf_append, hreceiver, violationsOf_eq_complaintsOf harguments]

/-- What is wrong with a script in a mode are the complaints that count in it. -/
theorem Script.violations_eq_complaints (script : Script) :
    script.violations strict = errorsOf strict script.complaints := by
  rw [violations, complaints, errorsOf_append, redeclarations_eq_repeatedIn,
    violationsOf_eq_complaintsOf fun node _ ↦ node.violations_eq_complaints]

end Violations

/-! ### Complaints about parameters -/

/-- A function on some line has a parameter of some name that is the receiver or repeats another one. -/
def Definition.Repeats (definition : Definition) (name : String) (line : UInt32) : Prop :=
  definition.line = line ∧ ∃ before after : List String, definition.parameters = before ++ name :: after ∧
    name ∈ SlotTable.receiverName :: before

/-- Every complaint about a parameter concerns one of some functions. -/
def Concerned (complaints : List Complaint) (definitions : List Definition) : Prop :=
  ∀ (name : String) (line : UInt32), .parameter name line ∈ complaints →
    ∃ definition ∈ definitions, definition.Repeats name line

namespace Concerned

variable {complaints more : List Complaint} {definitions further : List Definition}

theorem of_forall_ne (hother : ∀ (name : String) (line : UInt32), .parameter name line ∉ complaints) :
    Concerned complaints definitions :=
  fun name line hmem ↦ absurd hmem (hother name line)

theorem append (hfirst : Concerned complaints definitions) (hsecond : Concerned more further) :
    Concerned (complaints ++ more) (definitions ++ further) := by
  intro name line hmem
  rcases List.mem_append.mp hmem with hhere | hrest
  · obtain ⟨definition, hdefinition, hrepeats⟩ := hfirst name line hhere
    exact ⟨definition, List.mem_append_left _ hdefinition, hrepeats⟩
  · obtain ⟨definition, hdefinition, hrepeats⟩ := hsecond name line hrest
    exact ⟨definition, List.mem_append_right _ hdefinition, hrepeats⟩

/-- A function stands behind those in its body, but is complained about before them. -/
theorem append_comm (hfirst : Concerned complaints definitions) (hsecond : Concerned more further) :
    Concerned (complaints ++ more) (further ++ definitions) := by
  intro name line hmem
  obtain ⟨definition, hdefinition, hrepeats⟩ := hfirst.append hsecond name line hmem
  exact ⟨definition, List.mem_append.mpr (List.mem_append.mp hdefinition).symm, hrepeats⟩

end Concerned

/-- A repetition is in the list, and was seen or stands behind one of its name. -/
theorem exists_of_mem_repetitions {seen names : List String} {name : String}
    (hmem : name ∈ repetitions id seen names) :
    ∃ before after : List String, names = before ++ name :: after ∧ name ∈ seen ++ before := by
  induction names generalizing seen with
  | nil => cases hmem
  | cons first rest ih =>
    rw [repetitions, List.mem_append] at hmem
    rcases hmem with hhere | hrest
    · split_ifs at hhere with hseen
      · obtain rfl := List.mem_singleton.mp hhere
        exact ⟨[], rest, rfl, List.mem_append_left _ hseen⟩
      · cases hhere
    · obtain ⟨before, after, rfl, hagain⟩ := ih hrest
      exact ⟨first :: before, after, rfl, List.perm_middle.symm.mem_iff.mp hagain⟩

theorem concerned_repeatedIn (first : Nat) (name : String) (parameters : List String) (body : Block Node)
    (line : UInt32) :
    Concerned (repeatedIn parameters body line) [Definition.ofBody first name parameters body line] := by
  intro repeated bodyLine hmem
  refine ⟨_, List.mem_singleton_self _, ?_⟩
  rcases List.mem_append.mp hmem with hparameter | hvariable
  · obtain ⟨own, hown, hsame⟩ := List.mem_map.mp hparameter
    obtain ⟨rfl, rfl⟩ := Complaint.parameter.inj hsame
    exact ⟨rfl, exists_of_mem_repetitions hown⟩
  · obtain ⟨declaration, -, hsame⟩ := List.mem_map.mp hvariable
    cases hsame

theorem concerned_complaintsOf {nodes : List Node}
    (hnodes : ∀ node ∈ nodes, ∀ (scope : List String) (first : Nat),
      Concerned (node.complaints scope) (node.definitions first))
    (scope : List String) (first : Nat) : Concerned (complaintsOf scope nodes) (definitionsOf first nodes) := by
  induction nodes generalizing first with
  | nil => exact .of_forall_ne fun _ _ ↦ List.not_mem_nil
  | cons node rest ih =>
    exact (hnodes node List.mem_cons_self scope first).append
      (ih (fun other hother ↦ hnodes other (List.mem_cons_of_mem _ hother)) _)

theorem concerned_fieldComplaints {fields : List (Field Node)}
    (hfields : ∀ field ∈ fields, ∀ (scope : List String) (first : Nat),
      Concerned (field.value.complaints scope) (field.value.definitions first))
    (scope : List String) (first : Nat) :
    Concerned (fieldComplaints scope fields) (fieldDefinitions first fields) := by
  induction fields generalizing first with
  | nil => exact .of_forall_ne fun _ _ ↦ List.not_mem_nil
  | cons field rest ih =>
    exact (hfields field List.mem_cons_self scope first).append
      (ih (fun other hother ↦ hfields other (List.mem_cons_of_mem _ hother)) _)

/-- Complaints about parameters in a node concern functions in it. -/
theorem Node.concerned_complaints (node : Node) (scope : List String) (first : Nat) :
    Concerned (node.complaints scope) (node.definitions first) := by
  induction node using Node.induction generalizing scope first with
  | block body hbody => exact concerned_complaintsOf hbody scope first
  | literal value line | access name line => exact .of_forall_ne fun _ _ ↦ List.not_mem_nil
  | call callee arguments line hcallee harguments | methodCall callee name arguments line hcallee harguments =>
    exact (hcallee scope first).append (concerned_complaintsOf harguments scope _)
  | assignment name value declares line hvalue =>
    rw [complaints, definitions, ← List.append_nil (value.definitions first)]
    refine (hvalue scope first).append (.of_forall_ne fun other otherLine ↦ ?_)
    split_ifs <;> simp
  | function name parameters body line hbody =>
    exact (concerned_repeatedIn first (name.getD Lowering.anonymous) parameters body line).append_comm
      (concerned_complaintsOf hbody _ first)
  | ret value line hvalue | fieldAccess value name line hvalue => exact hvalue scope first
  | conditional condition thenBlock elseBlock line hcondition hthen helse =>
    exact ((hcondition scope first).append (concerned_complaintsOf hthen scope _)).append
      (concerned_complaintsOf helse scope _)
  | object fields line hfields =>
    rw [complaints, definitions, ← List.nil_append (fieldDefinitions first fields)]
    exact (Concerned.of_forall_ne fun other otherLine ↦ by simp).append (concerned_fieldComplaints hfields scope first)
  | fieldAssignment receiver name value line hreceiver hvalue =>
    exact (hreceiver scope first).append (hvalue scope _)

/-- Complaints about parameters in a script concern functions of the script. -/
theorem Script.concerned_complaints (script : Script) (first : Nat) :
    Concerned script.complaints (script.definitions first) :=
  (concerned_repeatedIn first "main" [] script.body script.body.line).append_comm
    (concerned_complaintsOf (fun node _ ↦ node.concerned_complaints) _ first)

/-! ### Both modes -/

/-- A script is refused for the first complaint that counts. -/
theorem exists_compileScript_eq_error_iff {strict : Bool} {script : Script} {workspace : Workspace}
    {error : CompileError} :
    (∃ after : Workspace, compileScript strict script workspace = .error error after) ↔
      (errorsOf strict script.complaints).head? = some error := by
  have hyields := yields_compileScript strict script workspace
  rw [script.violations_eq_complaints] at hyields
  unfold Lowering.Yields at hyields
  cases hresult : compileScript strict script workspace with
  | ok main after =>
    rw [hresult] at hyields
    simp [hyields.1]
  | error fault after =>
    rw [hresult] at hyields
    simp [hyields.1]

/-- What the strict mode accepts is compiled to the same code and the same constants without it. What it refuses
it refuses for the first complaint, and unless that is about a variable, the script is refused with the same
error without the strict mode. A redeclaration that is reported without it is one of a parameter of a function of
the script, on the line of the function. -/
theorem compileScript_relaxes (script : Script) (workspace : Workspace) :
    (∀ (main : Routine) (after : Workspace), compileScript true script workspace = .ok main after →
      compileScript false script workspace = .ok main after) ∧
    (∀ (error : CompileError) (after : Workspace), compileScript true script workspace = .error error after →
      ∃ complaint : Complaint, script.complaints.head? = some complaint ∧ complaint.error = error ∧
        ((∃ declared : Declaration, complaint = .declaration declared) ∨
          ∃ relaxed : Workspace, compileScript false script workspace = .error error relaxed)) ∧
    (∀ (error : CompileError) (after : Workspace), compileScript true script workspace = .error error after →
      (∀ (name : String) (line : UInt32), error ≠ .redeclaration name line) →
        ∃ relaxed : Workspace, compileScript false script workspace = .error error relaxed) ∧
    (∀ (name : String) (line : UInt32) (after : Workspace),
      compileScript false script workspace = .error (.redeclaration name line) after →
        (script.complaints.filter (Complaint.countsIn false)).head? = some (.parameter name line) ∧
          ∃ definition ∈ script.definitions workspace.nextIdentity, definition.Repeats name line) := by
  have hrefused : ∀ (error : CompileError) (after : Workspace),
      compileScript true script workspace = .error error after →
        ∃ complaint : Complaint, script.complaints.head? = some complaint ∧ complaint.error = error ∧
          ((∃ declared : Declaration, complaint = .declaration declared) ∨
            ∃ relaxed : Workspace, compileScript false script workspace = .error error relaxed) := by
    intro error after hresult
    have hfirst := exists_compileScript_eq_error_iff.mp ⟨after, hresult⟩
    rw [errorsOf, List.filter_eq_self.mpr fun complaint _ ↦ complaint.countsIn_true, List.head?_map,
      Option.map_eq_some_iff] at hfirst
    obtain ⟨complaint, hcomplaint, rfl⟩ := hfirst
    refine ⟨complaint, hcomplaint, rfl, ?_⟩
    by_cases hcounts : complaint.countsIn false = true
    · refine Or.inr (exists_compileScript_eq_error_iff.mpr ?_)
      obtain ⟨rest, hall⟩ := List.head?_eq_some_iff.mp hcomplaint
      rw [hall, errorsOf, List.filter_cons_of_pos hcounts]
      rfl
    · exact Or.inl (Complaint.exists_declaration_of_not_countsIn hcounts)
  refine ⟨?_, hrefused, ?_, ?_⟩
  · exact Lowering.relaxes_routineOf (fun node _ ↦ Lowering.relaxesNode node) "main" [] script.body.line workspace
  · intro error after hresult hother
    obtain ⟨complaint, -, rfl, ⟨declared, rfl⟩ | hrelaxed⟩ := hrefused error after hresult
    · exact absurd rfl (hother declared.name declared.line)
    · exact hrelaxed
  · intro name line after hresult
    have hfirst := exists_compileScript_eq_error_iff.mp ⟨after, hresult⟩
    rw [errorsOf, List.head?_map, Option.map_eq_some_iff] at hfirst
    obtain ⟨complaint, hcomplaint, herror⟩ := hfirst
    obtain ⟨hmem, hcounts⟩ := List.mem_filter.mp (List.mem_of_head? hcomplaint)
    cases complaint with
    | declaration declared => cases hcounts
    | assignment other otherLine | object other otherLine => cases herror
    | parameter other otherLine =>
      obtain ⟨rfl, rfl⟩ := CompileError.redeclaration.inj herror
      exact ⟨hcomplaint, script.concerned_complaints workspace.nextIdentity other otherLine hmem⟩

/-- A script with a function that has two parameters of one name. -/
def Script.doubled : Script :=
  ⟨⟨[.function (some "f") ["x", "x"] ⟨[], 3⟩ 3], 1⟩⟩

/-- A script with one variable. -/
def Script.single : Script :=
  ⟨⟨[.assignment "a" (.literal .undefined 2) true 2], 1⟩⟩

theorem compileScript_relaxes_doubled :
    (∃ relaxed : Workspace, compileScript false Script.doubled ⟨.empty, 0⟩ = .error (.redeclaration "x" 3) relaxed) ∧
      ∃ (main : Routine) (after : Workspace), compileScript true Script.single ⟨.empty, 0⟩ = .ok main after ∧
        compileScript false Script.single ⟨.empty, 0⟩ = .ok main after := by
  obtain ⟨-, hrefused, -, -⟩ := compileScript_relaxes Script.doubled ⟨.empty, 0⟩
  obtain ⟨hrelaxes, -, -, -⟩ := compileScript_relaxes Script.single ⟨.empty, 0⟩
  constructor
  · have hcomplaints : Script.doubled.complaints = [.parameter "x" 3] := by decide
    have hfirst : (errorsOf true Script.doubled.complaints).head? = some (.redeclaration "x" 3) := by
      rw [hcomplaints]
      rfl
    obtain ⟨after, hresult⟩ := exists_compileScript_eq_error_iff.mpr hfirst
    obtain ⟨complaint, hcomplaint, -, ⟨declared, rfl⟩ | hrelaxed⟩ := hrefused _ after hresult
    · rw [hcomplaints] at hcomplaint
      cases hcomplaint
    · exact hrelaxed
  · have hnone : Script.single.violations true = [] := by decide
    obtain ⟨main, after, hresult⟩ := exists_compileScript hnone ⟨.empty, 0⟩
    exact ⟨main, after, hresult, hrelaxes main after hresult⟩

end ScriptMachine
