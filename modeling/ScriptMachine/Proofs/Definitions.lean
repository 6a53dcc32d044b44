import ScriptMachine.Proofs.CompiledScripts

/-!
# Functions and the lines they stand on

A `Definition` is a function of a program together with the source line of its literal, or of the script. The compiler
gives the ending of its body the line of the last node, or that line where the body is empty
(`Definition.lastLine`).

`Lowering.Builds` says of what parts a compilation is put together, and which definitions the functions belong to that
it makes constants, for every node of the tree (`Lowering.buildsNode`). What follows for the constants is shown by
induction on it: no compilation, whether it fails or not, adds other functions (`Lowering.Builds.defines`).
-/

set_option autoImplicit false
set_option relaxedAutoImplicit false

namespace ScriptMachine

/-! ### Definitions -/

/-- A function of a program with its source line. -/
structure Definition extends Closure where
  line : UInt32

namespace Definition

/-- The function of a body whose sites have the identities from the first one on. -/
def ofBody (first : Nat) (name : String) (parameters : List String) (body : Block Node) (line : UInt32) : Definition :=
  ⟨Closure.ofBody first name parameters body, line⟩

/-- The source line of the ending of a function. -/
def lastLine (definition : Definition) : UInt32 :=
  Lowering.endLine definition.body definition.line

/-- A routine has the identity and the name of a function, and ends on its last line. -/
structure Describes (definition : Definition) (routine : Routine) : Prop where
  identity : routine.identity = definition.identity
  name : routine.name = definition.name
  lastLine : routine.unit.lastLine? = some definition.lastLine

end Definition

mutual

/-- The function literals of a node whose sites have the identities from the first one on. -/
def Node.definitions (first : Nat) : Node → List Definition
  | .block body => definitionsOf first body.nodes
  | .literal _ _ => []
  | .call callee arguments _ => callee.definitions first ++ definitionsOf (first + callee.sites) arguments
  | .access _ _ => []
  | .assignment _ value _ _ => value.definitions first
  | .function name parameters body line =>
    definitionsOf first body.nodes ++ [Definition.ofBody first (name.getD Lowering.anonymous) parameters body line]
  | .ret value _ => value.definitions first
  | .conditional condition thenBlock elseBlock _ =>
    condition.definitions first ++ definitionsOf (first + condition.sites) thenBlock.nodes ++
      definitionsOf (first + condition.sites + sitesOf thenBlock.nodes) elseBlock.nodes
  | .object fields _ => fieldDefinitions first fields
  | .fieldAccess receiver _ _ => receiver.definitions first
  | .fieldAssignment receiver _ value _ => receiver.definitions first ++ value.definitions (first + receiver.sites)
  | .methodCall receiver _ arguments _ =>
    receiver.definitions first ++ definitionsOf (first + receiver.sites) arguments

/-- The function literals of several nodes. -/
def definitionsOf (first : Nat) : List Node → List Definition
  | [] => []
  | node :: rest => node.definitions first ++ definitionsOf (first + node.sites) rest

/-- The function literals in the initial values of fields. -/
def fieldDefinitions (first : Nat) : List (Field Node) → List Definition
  | [] => []
  | field :: rest => field.value.definitions first ++ fieldDefinitions (first + field.value.sites) rest

end

/-- The functions of a script, the one of its body last. -/
def Script.definitions (first : Nat) (script : Script) : List Definition :=
  definitionsOf first script.body.nodes ++ [Definition.ofBody first "main" [] script.body script.body.line]

section Closures

theorem map_definitionsOf {nodes : List Node}
    (hnodes : ∀ node ∈ nodes, ∀ first : Nat, (node.definitions first).map Definition.toClosure = node.closures first)
    (first : Nat) : (definitionsOf first nodes).map Definition.toClosure = closuresOf first nodes := by
  induction nodes generalizing first with
  | nil => rw [definitionsOf, closuresOf, List.map_nil]
  | cons node rest ih =>
    rw [definitionsOf, closuresOf, List.map_append, hnodes node List.mem_cons_self,
      ih fun other hother ↦ hnodes other (List.mem_cons_of_mem _ hother)]

theorem map_fieldDefinitions {fields : List (Field Node)}
    (hfields : ∀ field ∈ fields, ∀ first : Nat,
      (field.value.definitions first).map Definition.toClosure = field.value.closures first)
    (first : Nat) : (fieldDefinitions first fields).map Definition.toClosure = fieldClosures first fields := by
  induction fields generalizing first with
  | nil => rw [fieldDefinitions, fieldClosures, List.map_nil]
  | cons field rest ih =>
    rw [fieldDefinitions, fieldClosures, List.map_append, hfields field List.mem_cons_self,
      ih fun other hother ↦ hfields other (List.mem_cons_of_mem _ hother)]

/-- The definitions of a node are its functions with their lines. -/
theorem Node.map_definitions (node : Node) (first : Nat) :
    (node.definitions first).map Definition.toClosure = node.closures first := by
  induction node using Node.induction generalizing first with
  | block body hbody =>
    rw [Node.definitions, Node.closures]
    exact map_definitionsOf hbody first
  | literal value line | access name line =>
    rw [Node.definitions, Node.closures]
    rfl
  | call callee arguments line hcallee harguments =>
    rw [Node.definitions, Node.closures, List.map_append, hcallee, map_definitionsOf harguments]
  | assignment name value declares line hvalue | ret value line hvalue | fieldAccess value name line hvalue =>
    rw [Node.definitions, Node.closures]
    exact hvalue first
  | function name parameters body line hbody =>
    rw [Node.definitions, Node.closures, List.map_append, map_definitionsOf hbody]
    rfl
  | conditional condition thenBlock elseBlock line hcondition hthen helse =>
    rw [Node.definitions, Node.closures, List.map_append, List.map_append, hcondition, map_definitionsOf hthen,
      map_definitionsOf helse]
  | object fields line hfields =>
    rw [Node.definitions, Node.closures]
    exact map_fieldDefinitions hfields first
  | fieldAssignment receiver name value line hreceiver hvalue =>
    rw [Node.definitions, Node.closures, List.map_append, hreceiver, hvalue]
  | methodCall receiver name arguments line hreceiver harguments =>
    rw [Node.definitions, Node.closures, List.map_append, hreceiver, map_definitionsOf harguments]

/-- The definitions of a script are its functions with their lines. -/
theorem Script.map_definitions (script : Script) (first : Nat) :
    (script.definitions first).map Definition.toClosure = script.closures first := by
  unfold definitions closures
  rw [List.map_append, map_definitionsOf fun node _ ↦ node.map_definitions]
  rfl

end Closures

/-! ### Literals inside of functions -/

/-- The function literals in the body of a function. -/
def Definition.literals (definition : Definition) : List Definition :=
  definitionsOf definition.firstSite definition.body.nodes

/-- The identity of a function comes behind those of the sites in its body, and the function literals in its body are
among some definitions. -/
structure Definition.NestsIn (definition : Definition) (definitions : List Definition) : Prop where
  identity : definition.identity = definition.firstSite + sitesOf definition.body.nodes
  literals : definition.literals ⊆ definitions

namespace Definition

variable {definition : Definition} {definitions more : List Definition}

theorem NestsIn.mono (hnests : definition.NestsIn definitions) (hmore : definitions ⊆ more) :
    definition.NestsIn more :=
  ⟨hnests.identity, List.Subset.trans hnests.literals hmore⟩

/-- Definitions that contain the literals in their bodies are joined to such. -/
theorem nestsIn_append (hfirst : ∀ definition ∈ definitions, definition.NestsIn definitions)
    (hsecond : ∀ definition ∈ more, definition.NestsIn more) :
    ∀ definition ∈ definitions ++ more, definition.NestsIn (definitions ++ more) := by
  intro definition hmem
  rcases List.mem_append.mp hmem with hleft | hright
  · exact (hfirst definition hleft).mono (List.subset_append_left _ _)
  · exact (hsecond definition hright).mono (List.subset_append_right _ _)

/-- The function of a body comes behind the literals in the body. -/
theorem nestsIn_ofBody {first : Nat} {body : Block Node}
    (hbody : ∀ definition ∈ definitionsOf first body.nodes, definition.NestsIn (definitionsOf first body.nodes))
    (name : String) (parameters : List String) (line : UInt32) :
    ∀ definition ∈ definitionsOf first body.nodes ++ [ofBody first name parameters body line],
      definition.NestsIn (definitionsOf first body.nodes ++ [ofBody first name parameters body line]) := by
  intro definition hmem
  rcases List.mem_append.mp hmem with hinner | hlast
  · exact (hbody definition hinner).mono (List.subset_append_left _ _)
  · rw [List.mem_singleton.mp hlast]
    exact ⟨rfl, List.subset_append_left _ _⟩

/-- The literals in the body of a function come before the function. -/
theorem NestsIn.identity_lt (hnests : definition.NestsIn definitions) {literal : Definition}
    (hmem : literal ∈ definition.literals) : literal.identity < definition.identity := by
  have hnumbered : Closure.Numbered definition.firstSite (sitesOf definition.body.nodes)
      (closuresOf definition.firstSite definition.body.nodes) :=
    numbered_closuresOf (fun node _ ↦ node.numbered_closures) _
  rw [hnests.identity]
  refine (hnumbered.bounds literal.toClosure ?_).2
  rw [← map_definitionsOf fun node _ ↦ node.map_definitions]
  exact List.mem_map_of_mem hmem

end Definition

theorem nestsIn_definitionsOf {nodes : List Node}
    (hnodes : ∀ node ∈ nodes, ∀ first : Nat, ∀ definition ∈ node.definitions first,
      definition.NestsIn (node.definitions first)) (first : Nat) :
    ∀ definition ∈ definitionsOf first nodes, definition.NestsIn (definitionsOf first nodes) := by
  induction nodes generalizing first with
  | nil =>
    rw [definitionsOf]
    exact List.forall_mem_nil _
  | cons node rest ih =>
    rw [definitionsOf]
    exact Definition.nestsIn_append (hnodes node List.mem_cons_self first)
      (ih (fun other hother ↦ hnodes other (List.mem_cons_of_mem _ hother)) _)

theorem nestsIn_fieldDefinitions {fields : List (Field Node)}
    (hfields : ∀ field ∈ fields, ∀ first : Nat, ∀ definition ∈ field.value.definitions first,
      definition.NestsIn (field.value.definitions first)) (first : Nat) :
    ∀ definition ∈ fieldDefinitions first fields, definition.NestsIn (fieldDefinitions first fields) := by
  induction fields generalizing first with
  | nil =>
    rw [fieldDefinitions]
    exact List.forall_mem_nil _
  | cons field rest ih =>
    rw [fieldDefinitions]
    exact Definition.nestsIn_append (hfields field List.mem_cons_self first)
      (ih (fun other hother ↦ hfields other (List.mem_cons_of_mem _ hother)) _)

/-- The definitions of a node contain the literals in their bodies. -/
theorem Node.nestsIn_definitions (node : Node) :
    ∀ first : Nat, ∀ definition ∈ node.definitions first, definition.NestsIn (node.definitions first) := by
  induction node using Node.induction with
  | block body hbody =>
    intro first
    rw [Node.definitions]
    exact nestsIn_definitionsOf hbody first
  | literal value line | access name line =>
    intro first
    rw [Node.definitions]
    exact List.forall_mem_nil _
  | call callee arguments line hcallee harguments =>
    intro first
    rw [Node.definitions]
    exact Definition.nestsIn_append (hcallee first) (nestsIn_definitionsOf harguments _)
  | assignment name value declares line hvalue | ret value line hvalue | fieldAccess value name line hvalue =>
    intro first
    rw [Node.definitions]
    exact hvalue first
  | function name parameters body line hbody =>
    intro first
    rw [Node.definitions]
    exact Definition.nestsIn_ofBody (nestsIn_definitionsOf hbody first) _ _ _
  | conditional condition thenBlock elseBlock line hcondition hthen helse =>
    intro first
    rw [Node.definitions]
    exact Definition.nestsIn_append (Definition.nestsIn_append (hcondition first) (nestsIn_definitionsOf hthen _))
      (nestsIn_definitionsOf helse _)
  | object fields line hfields =>
    intro first
    rw [Node.definitions]
    exact nestsIn_fieldDefinitions hfields first
  | fieldAssignment receiver name value line hreceiver hvalue =>
    intro first
    rw [Node.definitions]
    exact Definition.nestsIn_append (hreceiver first) (hvalue _)
  | methodCall receiver name arguments line hreceiver harguments =>
    intro first
    rw [Node.definitions]
    exact Definition.nestsIn_append (hreceiver first) (nestsIn_definitionsOf harguments _)

/-- The definitions of a script contain the literals in their bodies. -/
theorem Script.nestsIn_definitions (script : Script) (first : Nat) :
    ∀ definition ∈ script.definitions first, definition.NestsIn (script.definitions first) :=
  Definition.nestsIn_ofBody (nestsIn_definitionsOf (fun node _ ↦ node.nestsIn_definitions) first) _ _ _

/-! ### What a compilation consists of -/

namespace Lowering

/-- A part of a compilation that starts with an identity is put together of parts that give identities away and make
constants. If it comes to an end, the functions that it has made constants are the code of some definitions, in their
order, it has used up a number of identities, and its answer is right. -/
inductive Builds : {α : Type} → Lowering α → Nat → List Definition → Nat → (α → Prop) → Prop where
  | pure {α : Type} {first : Nat} {right : α → Prop} {answer : α} (hright : right answer) :
      Builds (Pure.pure answer) first [] 0 right
  | throw {α : Type} {first count : Nat} {definitions : List Definition} {right : α → Prop} (error : CompileError) :
      Builds (throwThe CompileError error : Lowering α) first definitions count right
  | bind {α β : Type} {first count further : Nat} {definitions more : List Definition} {part : Lowering α}
      {rest : α → Lowering β} {right : α → Prop} {rightRest : β → Prop}
      (hpart : Builds part first definitions count right)
      (hrest : ∀ answer : α, right answer → Builds (rest answer) (first + count) more further rightRest) :
      Builds (part >>= rest) first (definitions ++ more) (count + further) rightRest
  | constant {first : Nat} {value : Value} (hless : ∀ identity ∈ value.identity?, identity < first)
      (hother : ∀ routine : Routine, value ≠ .function (.compiled routine)) :
      Builds (Lowering.constant value) first [] 0 fun _ ↦ True
  | freshIdentity {first : Nat} : Builds Lowering.freshIdentity first [] 1 fun identity ↦ identity = first
  | function {first : Nat} {definition : Definition} {routine : Nat → Routine}
      (hdescribes : definition.Describes (routine first)) (hidentity : (routine first).identity = first) :
      Builds (Lowering.freshIdentity >>= fun identity ↦ Lowering.constant (.function (.compiled (routine identity))))
        first [definition] 1 fun _ ↦ True

namespace Builds

variable {α β : Type} {first count further : Nat} {definitions more : List Definition} {right : α → Prop}
  {rightRest : β → Prop}

/-- What makes no function a constant can come first. -/
theorem bind_left {part : Lowering α} {rest : α → Lowering β} (hpart : Builds part first [] 0 right)
    (hrest : ∀ answer : α, right answer → Builds (rest answer) first more further rightRest) :
    Builds (part >>= rest) first more further rightRest := by
  have hjoined := hpart.bind hrest
  rwa [List.nil_append, Nat.zero_add] at hjoined

/-- What makes no function a constant can come last. -/
theorem bind_right {part : Lowering α} {rest : α → Lowering β} (hpart : Builds part first definitions count right)
    (hrest : ∀ answer : α, right answer → Builds (rest answer) (first + count) [] 0 rightRest) :
    Builds (part >>= rest) first definitions count rightRest := by
  have hjoined := hpart.bind hrest
  rwa [List.append_nil] at hjoined

theorem text (content : String) : Builds (Lowering.constant (.text content)) first [] 0 fun _ ↦ True :=
  .constant (by rintro _ ⟨⟩) (by rintro _ ⟨⟩)

theorem literalWord (value : Literal) : Builds (Lowering.literalWord value) first [] 0 fun _ ↦ True := by
  cases value <;> rw [Lowering.literalWord]
  case integer =>
    split
    · exact .pure trivial
    · exact .constant (by rintro _ ⟨⟩) (by rintro _ ⟨⟩)
  case undefined => exact .pure trivial
  all_goals exact .constant (by rintro _ ⟨⟩) (by rintro _ ⟨⟩)

end Builds

/-- The compiler makes constants of the functions of a node. -/
def BuildsNode (node : Node) : Prop :=
  ∀ (strict : Bool) (slots : SlotTable) (first : Nat),
    Builds (lowerNode strict slots node) first (node.definitions first) node.sites fun _ ↦ True

theorem builds_lowerValues {nodes : List Node} (hnodes : ∀ node ∈ nodes, BuildsNode node) (strict : Bool)
    (slots : SlotTable) (first : Nat) :
    Builds (lowerValues strict slots nodes) first (definitionsOf first nodes) (sitesOf nodes) fun _ ↦ True := by
  induction nodes generalizing first with
  | nil => exact .pure trivial
  | cons node rest ih =>
    rw [lowerValues, definitionsOf, sitesOf]
    refine (hnodes node List.mem_cons_self strict slots first).bind fun _ _ ↦ ?_
    exact (ih (fun other hother ↦ hnodes other (List.mem_cons_of_mem _ hother)) _).bind_right fun _ _ ↦ .pure trivial

theorem builds_lowerStatements {nodes : List Node} (hnodes : ∀ node ∈ nodes, BuildsNode node) (strict : Bool)
    (slots : SlotTable) (first : Nat) :
    Builds (lowerStatements strict slots nodes) first (definitionsOf first nodes) (sitesOf nodes) fun _ ↦ True := by
  induction nodes generalizing first with
  | nil => exact .pure trivial
  | cons node rest ih =>
    rw [lowerStatements, definitionsOf, sitesOf]
    refine (hnodes node List.mem_cons_self strict slots first).bind fun _ _ ↦ ?_
    exact (ih (fun other hother ↦ hnodes other (List.mem_cons_of_mem _ hother)) _).bind_right fun _ _ ↦ .pure trivial

theorem builds_lowerFields {fields : List (Field Node)} (hfields : ∀ field ∈ fields, BuildsNode field.value)
    (strict : Bool) (slots : SlotTable) (first : Nat) :
    Builds (lowerFields strict slots fields) first (fieldDefinitions first fields) (fieldSites fields)
      fun _ ↦ True := by
  induction fields generalizing first with
  | nil => exact .pure trivial
  | cons field rest ih =>
    rw [lowerFields, fieldDefinitions, fieldSites]
    refine (hfields field List.mem_cons_self strict slots first).bind fun _ _ ↦ ?_
    exact (ih (fun other hother ↦ hfields other (List.mem_cons_of_mem _ hother)) _).bind_right fun _ _ ↦ .pure trivial

/-- The compiler makes constants of the functions in a body, and answers with the code of the body, whose identity is
the last. -/
theorem builds_routineOf {body : Block Node} (hbody : ∀ node ∈ body.nodes, BuildsNode node) (strict : Bool)
    (name : String) (parameters : List String) (line : UInt32) (first : Nat) :
    Builds (routineOf strict name parameters body line fun slots ↦ lowerStatements strict slots body.nodes) first
      (definitionsOf first body.nodes) (sitesOf body.nodes + 1)
      (Definition.ofBody first name parameters body line).Describes := by
  unfold routineOf
  cases SlotTable.allocate parameters body strict line with
  | error error => exact .throw error
  | ok slots =>
    rw [← List.append_nil (definitionsOf first body.nodes)]
    refine (builds_lowerStatements hbody strict slots first).bind fun code _ ↦ ?_
    refine Builds.freshIdentity.bind_right fun identity hidentity ↦ ?_
    exact .pure ⟨hidentity, rfl, Fragment.lastLine?_assemble _ _ _ _⟩

/-- The functions in the body of a literal are made constants, and then the literal itself. -/
theorem builds_function {body : Block Node} (hbody : ∀ node ∈ body.nodes, BuildsNode node) (strict : Bool)
    (name : String) (parameters : List String) (line : UInt32) (first : Nat) :
    Builds (do
        let routine ← routineOf strict name parameters body line fun slots ↦ lowerStatements strict slots body.nodes
        constant (.function (.compiled routine))) first
      (definitionsOf first body.nodes ++ [Definition.ofBody first name parameters body line])
      (sitesOf body.nodes + 1) fun _ ↦ True := by
  unfold routineOf
  cases SlotTable.allocate parameters body strict line with
  | error error => exact .throw error
  | ok slots =>
    simp only [bind_assoc, pure_bind]
    refine (builds_lowerStatements hbody strict slots first).bind fun code _ ↦ ?_
    exact .function ⟨rfl, rfl, Fragment.lastLine?_assemble _ _ _ _⟩ rfl

/-- The compiler makes constants of the functions of every node. -/
theorem buildsNode (node : Node) : BuildsNode node := by
  induction node using Node.induction
  case block body hbody =>
    intro strict slots first
    rw [lowerNode, Node.definitions, Node.sites]
    exact builds_lowerStatements hbody strict slots first
  case literal value line =>
    intro strict slots first
    rw [lowerNode, Node.definitions, Node.sites]
    exact (Builds.literalWord value).bind_right fun _ _ ↦ .pure trivial
  case call callee arguments line hcallee harguments =>
    intro strict slots first
    rw [lowerNode, Node.definitions, Node.sites]
    refine (hcallee strict slots first).bind fun _ _ ↦ ?_
    exact (builds_lowerValues harguments strict slots _).bind_right fun _ _ ↦ .pure trivial
  case access name line =>
    intro strict slots first
    rw [lowerNode, Node.definitions, Node.sites]
    cases slots.slotOf? name with
    | some slot => exact .pure trivial
    | none => exact (Builds.text name).bind_right fun _ _ ↦ .pure trivial
  case assignment name value declares line hvalue =>
    intro strict slots first
    rw [lowerNode, Node.definitions, Node.sites]
    refine (hvalue strict slots first).bind_right fun _ _ ↦ ?_
    cases slots.slotOf? name with
    | some slot => exact .pure trivial
    | none => exact .throw _
  case function name parameters body line hbody =>
    intro strict slots first
    rw [lowerNode, Node.definitions, Node.sites, ← bind_assoc]
    refine (builds_function hbody strict (name.getD anonymous) parameters line first).bind_right fun word _ ↦ ?_
    cases name with
    | none => exact .pure trivial
    | some bound => exact (Builds.text bound).bind_right fun _ _ ↦ .pure trivial
  case ret value line hvalue =>
    intro strict slots first
    rw [lowerNode, Node.definitions, Node.sites]
    exact (hvalue strict slots first).bind_right fun _ _ ↦ .pure trivial
  case conditional condition thenBlock elseBlock line hcondition hthen helse =>
    intro strict slots first
    rw [lowerNode, Node.definitions, Node.sites, List.append_assoc, Nat.add_assoc condition.sites]
    refine (hcondition strict slots first).bind fun _ _ ↦ ?_
    refine (builds_lowerStatements hthen strict slots _).bind fun _ _ ↦ ?_
    exact (builds_lowerStatements helse strict slots _).bind_right fun _ _ ↦ .pure trivial
  case object fields line hfields =>
    intro strict slots first
    rw [lowerNode, Node.definitions, Node.sites]
    cases firstRepeated? [] (fields.map Field.name) with
    | some name => exact .throw _
    | none =>
      rw [← List.append_nil (fieldDefinitions first fields)]
      refine (builds_lowerFields hfields strict slots first).bind fun _ _ ↦ ?_
      refine Builds.freshIdentity.bind_right fun identity hidentity ↦ ?_
      refine (Builds.constant ?_ (by rintro _ ⟨⟩)).bind_right fun _ _ ↦ .pure trivial
      rintro _ ⟨⟩
      exact Nat.lt_succ_of_le (Nat.le_of_eq hidentity)
  case fieldAccess receiver name line hreceiver =>
    intro strict slots first
    rw [lowerNode, Node.definitions, Node.sites]
    refine (hreceiver strict slots first).bind_right fun _ _ ↦ ?_
    exact (Builds.text name).bind_right fun _ _ ↦ .pure trivial
  case fieldAssignment receiver name value line hreceiver hvalue =>
    intro strict slots first
    rw [lowerNode, Node.definitions, Node.sites]
    refine (hreceiver strict slots first).bind fun _ _ ↦ ?_
    refine (hvalue strict slots _).bind_right fun _ _ ↦ ?_
    exact (Builds.text name).bind_right fun _ _ ↦ .pure trivial
  case methodCall receiver name arguments line hreceiver harguments =>
    intro strict slots first
    rw [lowerNode, Node.definitions, Node.sites]
    refine (hreceiver strict slots first).bind fun _ _ ↦ ?_
    refine (Builds.text name).bind_left fun _ _ ↦ ?_
    exact (builds_lowerValues harguments strict slots _).bind_right fun _ _ ↦ .pure trivial

end Lowering

/-- The compiler makes constants of the function literals of a script in the order in which they are finished, and
answers with the code of its body. -/
theorem builds_compileScript (strict : Bool) (script : Script) (first : Nat) :
    Lowering.Builds (compileScript strict script) first (definitionsOf first script.body.nodes) script.sites
      (Definition.ofBody first "main" [] script.body script.body.line).Describes :=
  Lowering.builds_routineOf (fun node _ ↦ Lowering.buildsNode node) strict "main" [] script.body.line first

/-! ### What a compilation defines -/

/-- Every compiled function that a table has more is the code of one of some definitions. -/
def ConstantTable.Defines (before after : ConstantTable) (definitions : List Definition) : Prop :=
  ∀ routine : Routine, .function (.compiled routine) ∈ after.entries →
    .function (.compiled routine) ∈ before.entries ∨ ∃ definition ∈ definitions, definition.Describes routine

namespace ConstantTable.Defines

variable {before between after : ConstantTable} {definitions more : List Definition}

theorem refl (table : ConstantTable) (definitions : List Definition) : table.Defines table definitions :=
  fun _ hroutine ↦ Or.inl hroutine

theorem weaken (hdefines : before.Defines after definitions) (hmore : definitions ⊆ more) :
    before.Defines after more := by
  intro routine hroutine
  refine (hdefines routine hroutine).imp_right ?_
  rintro ⟨definition, hdefinition, hdescribes⟩
  exact ⟨definition, hmore hdefinition, hdescribes⟩

theorem trans (hfirst : before.Defines between definitions) (hsecond : between.Defines after more) :
    before.Defines after (definitions ++ more) := by
  intro routine hroutine
  rcases hsecond routine hroutine with hold | ⟨definition, hdefinition, hdescribes⟩
  · exact hfirst.weaken (List.subset_append_left _ _) routine hold
  · exact Or.inr ⟨definition, List.mem_append_right _ hdefinition, hdescribes⟩

end ConstantTable.Defines

namespace Lowering

/-- A part of a compilation that starts with an identity adds the code of some definitions to the constants. If it
comes to an end, it has used up a number of identities, and its answer is right. -/
def Defines {α : Type} (part : Lowering α) (first : Nat) (definitions : List Definition) (count : Nat)
    (right : α → Prop) : Prop :=
  ∀ workspace : Workspace, workspace.nextIdentity = first →
    match part workspace with
    | .ok answer after => workspace.constants.Defines after.constants definitions ∧
        after.nextIdentity = first + count ∧ right answer
    | .error _ after => workspace.constants.Defines after.constants definitions

/-- Whether it fails or not, a part of a compilation defines the functions that it makes constants. -/
theorem Builds.defines {α : Type} {part : Lowering α} {first count : Nat} {definitions : List Definition}
    {right : α → Prop} (hbuilds : Builds part first definitions count right) :
    Defines part first definitions count right := by
  induction hbuilds with
  | pure hright =>
    rintro workspace rfl
    exact ⟨.refl _ _, rfl, hright⟩
  | throw error => exact fun workspace _ ↦ .refl workspace.constants _
  | @bind _ _ first count further definitions more part rest _ _ _ _ hpart hrest =>
    intro workspace hfirst
    have hanswer := hpart workspace hfirst
    simp only [Bind.bind, EStateM.bind]
    cases hresult : part workspace with
    | error error after =>
      rw [hresult] at hanswer
      exact hanswer.weaken (List.subset_append_left _ _)
    | ok answer after =>
      rw [hresult] at hanswer
      obtain ⟨hdefines, hnext, hright⟩ := hanswer
      have hlast := hrest answer hright after hnext
      dsimp only
      cases hsecond : rest answer after with
      | error error final =>
        rw [hsecond] at hlast
        exact hdefines.trans hlast
      | ok found final =>
        rw [hsecond] at hlast
        obtain ⟨hmore, hfinal, hfound⟩ := hlast
        exact ⟨hdefines.trans hmore, hfinal.trans (Nat.add_assoc _ _ _), hfound⟩
  | constant _ hother =>
    rintro workspace rfl
    refine ⟨fun routine hroutine ↦ Or.inl ?_, rfl, trivial⟩
    exact (ConstantTable.mem_entries_box hroutine).resolve_right fun hnew ↦ hother routine hnew.symm
  | freshIdentity =>
    rintro workspace rfl
    exact ⟨.refl _ _, rfl, rfl⟩
  | @function _ definition routine hdescribes =>
    rintro workspace rfl
    refine ⟨fun found (hfound : _ ∈ (workspace.constants.box (.function (.compiled (routine _)))).2.entries) ↦ ?_,
      rfl, trivial⟩
    rcases ConstantTable.mem_entries_box hfound with hold | hnew
    · exact Or.inl hold
    · cases hnew
      exact Or.inr ⟨_, List.mem_singleton_self _, hdescribes⟩

end Lowering

/-- The compiler defines the functions of a script, and answers with the last one. -/
theorem defines_compileScript (strict : Bool) (script : Script) (first : Nat) :
    Lowering.Defines (compileScript strict script) first (definitionsOf first script.body.nodes) script.sites
      (Definition.ofBody first "main" [] script.body script.body.line).Describes :=
  (builds_compileScript strict script first).defines

end ScriptMachine
