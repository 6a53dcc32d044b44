import Mathlib.Tactic.SplitIfs
import ScriptMachine.Proofs.Sites

/-!
# Well-formed scripts

A script is well formed when the body of the script and every function literal in it are. `Closure.WellFormed`
says of a single function that its parameters are different and none of them is the receiver, that strict
declarations are new, that every assignment has a variable, and that no object names a field twice. It looks
at the nodes of the function alone, which `Node.inside` lists in the order of their evaluation.

`Script.violations` lists everything that is wrong with a script in the order in which it is complained about.
The two agree: nothing is wrong with a script exactly when it is well formed
(`Script.violations_eq_nil_iff`). An assignment that declares its variable is never complained about
(`Script.exists_assignment_of_unresolved`).
-/

set_option autoImplicit false
set_option relaxedAutoImplicit false

namespace ScriptMachine

/-! ### The nodes of a function -/

mutual

/-- A node and the nodes in it in the order of their evaluation, without the bodies of nested functions. -/
def Node.inside : Node → List Node
  | .block body => insideOf body.nodes ++ [.block body]
  | .literal value line => [.literal value line]
  | .call callee arguments line => callee.inside ++ insideOf arguments ++ [.call callee arguments line]
  | .access name line => [.access name line]
  | .assignment name value declares line => value.inside ++ [.assignment name value declares line]
  | .function name parameters body line => [.function name parameters body line]
  | .ret value line => value.inside ++ [.ret value line]
  | .conditional condition thenBlock elseBlock line =>
    condition.inside ++ insideOf thenBlock.nodes ++ insideOf elseBlock.nodes ++
      [.conditional condition thenBlock elseBlock line]
  | .object fields line => fieldInside fields ++ [.object fields line]
  | .fieldAccess receiver name line => receiver.inside ++ [.fieldAccess receiver name line]
  | .fieldAssignment receiver name value line =>
    receiver.inside ++ value.inside ++ [.fieldAssignment receiver name value line]
  | .methodCall receiver name arguments line =>
    receiver.inside ++ insideOf arguments ++ [.methodCall receiver name arguments line]

/-- The nodes in several nodes. -/
def insideOf : List Node → List Node
  | [] => []
  | node :: rest => node.inside ++ insideOf rest

/-- The nodes in the initial values of fields. -/
def fieldInside : List (Field Node) → List Node
  | [] => []
  | field :: rest => field.value.inside ++ fieldInside rest

end

/-- The variable that a node declares. -/
def Node.declared? : Node → Option Declaration
  | .assignment name _ true line => some ⟨name, line⟩
  | _ => none

/-- The variables that the body of a function declares, in the order of their evaluation. -/
def Block.declared (body : Block Node) : List Declaration :=
  (insideOf body.nodes).filterMap Node.declared?

/-- The names that stand for variables in a function: the receiver, the parameters, and what the body
declares. -/
def scopeOf (parameters : List String) (body : Block Node) : List String :=
  SlotTable.receiverName :: parameters ++ body.declared.map Declaration.name

/-- An assignment that declares nothing needs a variable, and an object names each field once. -/
def Node.SoundIn (scope : List String) : Node → Prop
  | .assignment name _ false _ => name ∈ scope
  | .object fields _ => (fields.map Field.name).Nodup
  | _ => True

/-- A function is well formed, apart from the functions in it. -/
structure Closure.WellFormed (strict : Bool) (closure : Closure) : Prop where
  parameters : (SlotTable.receiverName :: closure.parameters).Nodup
  declarations : strict = true →
    (closure.body.declared.map Declaration.name).Nodup ∧
      ∀ declaration ∈ closure.body.declared,
        declaration.name ∉ SlotTable.receiverName :: closure.parameters
  nodes : ∀ node ∈ insideOf closure.body.nodes, node.SoundIn (scopeOf closure.parameters closure.body)

/-! ### Complaints -/

/-- The members of a list whose name occurs before, in the list or among other names. -/
def repetitions {α : Type} (name : α → String) : (seen : List String) → List α → List α
  | _, [] => []
  | seen, member :: rest =>
    (if name member ∈ seen then [member] else []) ++ repetitions name (name member :: seen) rest

/-- What is wrong with the parameters and, if they are strict, the declarations of a function. -/
def redeclarations (strict : Bool) (parameters : List String) (body : Block Node) (line : UInt32) :
    List CompileError :=
  (repetitions id [SlotTable.receiverName] parameters).map (fun name ↦ .redeclaration name line) ++
    if strict then
      (repetitions Declaration.name (SlotTable.receiverName :: parameters) body.declared).map
        fun declaration ↦ .redeclaration declaration.name declaration.line
    else []

mutual

/-- What is wrong with a node of a function with some names for variables, in the order of evaluation. An
assigned value comes before the variable, the names of the fields of an object come before their values, and
a function comes whole where it stands, with its parameters and strict declarations first. -/
def Node.violations (strict : Bool) (scope : List String) : Node → List CompileError
  | .block body => violationsOf strict scope body.nodes
  | .literal _ _ => []
  | .call callee arguments _ => callee.violations strict scope ++ violationsOf strict scope arguments
  | .access _ _ => []
  | .assignment name value declares line =>
    value.violations strict scope ++
      if declares = true ∨ name ∈ scope then [] else [.unresolvedLocal name line]
  | .function _ parameters body line =>
    redeclarations strict parameters body line ++
      violationsOf strict (scopeOf parameters body) body.nodes
  | .ret value _ => value.violations strict scope
  | .conditional condition thenBlock elseBlock _ =>
    condition.violations strict scope ++ violationsOf strict scope thenBlock.nodes ++
      violationsOf strict scope elseBlock.nodes
  | .object fields line =>
    (repetitions id [] (fields.map Field.name)).map (fun name ↦ .duplicateField name line) ++
      fieldViolations strict scope fields
  | .fieldAccess receiver _ _ => receiver.violations strict scope
  | .fieldAssignment receiver _ value _ =>
    receiver.violations strict scope ++ value.violations strict scope
  | .methodCall receiver _ arguments _ =>
    receiver.violations strict scope ++ violationsOf strict scope arguments

/-- What is wrong with several nodes. -/
def violationsOf (strict : Bool) (scope : List String) : List Node → List CompileError
  | [] => []
  | node :: rest => node.violations strict scope ++ violationsOf strict scope rest

/-- What is wrong with the initial values of fields. -/
def fieldViolations (strict : Bool) (scope : List String) : List (Field Node) → List CompileError
  | [] => []
  | field :: rest => field.value.violations strict scope ++ fieldViolations strict scope rest

end

/-- What is wrong with a script. -/
def Script.violations (strict : Bool) (script : Script) : List CompileError :=
  redeclarations strict [] script.body script.body.line ++
    violationsOf strict (scopeOf [] script.body) script.body.nodes

/-! ### Repetitions -/

/-- Names that were seen before count, in whatever order. -/
theorem repetitions_congr {α : Type} (name : α → String) {seen other : List String}
    (hsame : ∀ read : String, read ∈ seen ↔ read ∈ other) (members : List α) :
    repetitions name seen members = repetitions name other members := by
  induction members generalizing seen other with
  | nil => rfl
  | cons member rest ih =>
    have hmore : ∀ read : String, read ∈ name member :: seen ↔ read ∈ name member :: other :=
      fun read ↦ by rw [List.mem_cons, List.mem_cons, hsame]
    rw [repetitions, repetitions, ih hmore]
    simp only [hsame]

/-- No name is repeated when all are different and none was seen before. -/
theorem repetitions_eq_nil_iff {α : Type} (name : α → String) (seen : List String) (members : List α) :
    repetitions name seen members = [] ↔
      (members.map name).Nodup ∧ ∀ member ∈ members, name member ∉ seen := by
  induction members generalizing seen with
  | nil => simp [repetitions]
  | cons member rest ih =>
    rw [repetitions, List.append_eq_nil_iff, ih]
    simp only [List.map_cons, List.nodup_cons, List.mem_cons, List.mem_map, not_or, not_exists, not_and,
      ite_eq_right_iff, List.cons_ne_nil, imp_false, forall_eq_or_imp]
    grind

/-! ### Declarations -/

/-- The declarations in several nodes are those of the nodes inside when this is so for each of them. -/
theorem declarationsOf_eq {nodes : List Node}
    (hnodes : ∀ node ∈ nodes, node.declarations = node.inside.filterMap Node.declared?) :
    declarationsOf nodes = (insideOf nodes).filterMap Node.declared? := by
  induction nodes with
  | nil => rfl
  | cons node rest ih =>
    rw [declarationsOf, insideOf, List.filterMap_append, hnodes node List.mem_cons_self,
      ih fun inner hinner ↦ hnodes inner (List.mem_cons_of_mem _ hinner)]

theorem fieldDeclarations_eq {fields : List (Field Node)}
    (hfields : ∀ field ∈ fields, field.value.declarations = field.value.inside.filterMap Node.declared?) :
    fieldDeclarations fields = (fieldInside fields).filterMap Node.declared? := by
  induction fields with
  | nil => rfl
  | cons field rest ih =>
    rw [fieldDeclarations, fieldInside, List.filterMap_append, hfields field List.mem_cons_self,
      ih fun inner hinner ↦ hfields inner (List.mem_cons_of_mem _ hinner)]

/-- The search for declarations goes through all nodes of a function in order. -/
theorem Node.declarations_eq (node : Node) : node.declarations = node.inside.filterMap Node.declared? := by
  induction node using Node.induction with
  | block body hbody => simp [declarations, inside, declared?, declarationsOf_eq hbody]
  | literal value line => rfl
  | call callee arguments line hcallee harguments =>
    simp [declarations, inside, declared?, hcallee, declarationsOf_eq harguments]
  | access name line => rfl
  | assignment name value declares line hvalue =>
    cases declares <;> simp [declarations, inside, declared?, hvalue]
  | function name parameters body line hbody => rfl
  | ret value line hvalue => simp [declarations, inside, declared?, hvalue]
  | conditional condition thenBlock elseBlock line hcondition hthen helse =>
    simp [declarations, inside, declared?, hcondition, declarationsOf_eq hthen, declarationsOf_eq helse]
  | object fields line hfields => simp [declarations, inside, declared?, fieldDeclarations_eq hfields]
  | fieldAccess receiver name line hreceiver => simp [declarations, inside, declared?, hreceiver]
  | fieldAssignment receiver name value line hreceiver hvalue =>
    simp [declarations, inside, declared?, hreceiver, hvalue]
  | methodCall receiver name arguments line hreceiver harguments =>
    simp [declarations, inside, declared?, hreceiver, declarationsOf_eq harguments]

/-- The slots of a function are allocated for what its body declares. -/
theorem Block.declarationsOf_nodes (body : Block Node) : declarationsOf body.nodes = body.declared :=
  declarationsOf_eq fun node _ ↦ node.declarations_eq

/-! ### No complaints -/

/-- Nothing is wrong with the parameters and declarations of a function exactly when they are well formed. -/
theorem redeclarations_eq_nil_iff (strict : Bool) (parameters : List String) (body : Block Node)
    (line : UInt32) :
    redeclarations strict parameters body line = [] ↔
      (SlotTable.receiverName :: parameters).Nodup ∧
        (strict = true → (body.declared.map Declaration.name).Nodup ∧
          ∀ declaration ∈ body.declared, declaration.name ∉ SlotTable.receiverName :: parameters) := by
  have hparameters : repetitions id [SlotTable.receiverName] parameters = [] ↔
      (SlotTable.receiverName :: parameters).Nodup := by
    rw [repetitions_eq_nil_iff, List.map_id, List.nodup_cons, and_comm]
    refine and_congr_left' ⟨fun hnew hmem ↦ hnew _ hmem (List.mem_singleton_self _), ?_⟩
    rintro hnew member hmember hsame
    exact hnew (List.mem_singleton.mp hsame ▸ hmember)
  rw [redeclarations, List.append_eq_nil_iff, List.map_eq_nil_iff, hparameters]
  cases strict
  · simp
  · simp only [if_true, List.map_eq_nil_iff, repetitions_eq_nil_iff, forall_const]

/-- A function is well formed exactly when nothing is wrong with its parameters, its declarations and the nodes
inside. -/
theorem Closure.wellFormed_ofBody_iff {strict : Bool} {first : Nat} {name : String} {parameters : List String}
    {body : Block Node} (line : UInt32) :
    (Closure.ofBody first name parameters body).WellFormed strict ↔
      redeclarations strict parameters body line = [] ∧
        ∀ node ∈ insideOf body.nodes, node.SoundIn (scopeOf parameters body) := by
  rw [redeclarations_eq_nil_iff]
  exact ⟨fun hwell ↦ ⟨⟨hwell.parameters, hwell.declarations⟩, hwell.nodes⟩,
    fun hwell ↦ ⟨hwell.1.1, hwell.1.2, hwell.2⟩⟩

/-- Some nodes of a function with some names for variables are sound, and some functions are well formed. -/
def Faultless (strict : Bool) (scope : List String) (inside : List Node) (closures : List Closure) : Prop :=
  (∀ node ∈ inside, node.SoundIn scope) ∧ ∀ closure ∈ closures, closure.WellFormed strict

namespace Faultless

variable {strict : Bool} {scope : List String} {inside : List Node} {closures : List Closure}

theorem append_iff {more : List Node} {added : List Closure} :
    Faultless strict scope (inside ++ more) (closures ++ added) ↔
      Faultless strict scope inside closures ∧ Faultless strict scope more added := by
  simp only [Faultless, List.forall_mem_append]
  exact and_and_and_comm

/-- A node comes behind its parts. -/
theorem concat_iff {node : Node} :
    Faultless strict scope (inside ++ [node]) closures ↔
      Faultless strict scope inside closures ∧ node.SoundIn scope := by
  simp only [Faultless, List.forall_mem_append, List.forall_mem_singleton]
  exact and_right_comm

end Faultless

/-- There are no complaints about several nodes when there is nothing to complain about in each of them. -/
theorem violationsOf_eq_nil_iff {strict : Bool} {nodes : List Node}
    (hnodes : ∀ node ∈ nodes, ∀ (scope : List String) (first : Nat),
      node.violations strict scope = [] ↔ Faultless strict scope node.inside (node.closures first))
    (scope : List String) (first : Nat) :
    violationsOf strict scope nodes = [] ↔
      Faultless strict scope (insideOf nodes) (closuresOf first nodes) := by
  induction nodes generalizing first with
  | nil => simp [violationsOf, insideOf, closuresOf, Faultless]
  | cons node rest ih =>
    rw [violationsOf, insideOf, closuresOf, List.append_eq_nil_iff, Faultless.append_iff,
      hnodes node List.mem_cons_self, ih fun inner hinner ↦ hnodes inner (List.mem_cons_of_mem _ hinner)]

theorem fieldViolations_eq_nil_iff {strict : Bool} {fields : List (Field Node)}
    (hfields : ∀ field ∈ fields, ∀ (scope : List String) (first : Nat),
      field.value.violations strict scope = [] ↔
        Faultless strict scope field.value.inside (field.value.closures first))
    (scope : List String) (first : Nat) :
    fieldViolations strict scope fields = [] ↔
      Faultless strict scope (fieldInside fields) (fieldClosures first fields) := by
  induction fields generalizing first with
  | nil => simp [fieldViolations, fieldInside, fieldClosures, Faultless]
  | cons field rest ih =>
    rw [fieldViolations, fieldInside, fieldClosures, List.append_eq_nil_iff, Faultless.append_iff,
      hfields field List.mem_cons_self, ih fun inner hinner ↦ hfields inner (List.mem_cons_of_mem _ hinner)]

/-- There are no complaints about a node exactly when the nodes inside are sound and the functions in it are
well formed. -/
theorem Node.violations_eq_nil_iff (strict : Bool) (node : Node) :
    ∀ (scope : List String) (first : Nat),
      node.violations strict scope = [] ↔ Faultless strict scope node.inside (node.closures first) := by
  induction node using Node.induction with
  | block body hbody =>
    intro scope first
    rw [violations, inside, closures, Faultless.concat_iff, violationsOf_eq_nil_iff hbody scope first]
    exact (and_iff_left trivial).symm
  | literal value line | access name line =>
    intro scope first
    simp [violations, inside, closures, Faultless, SoundIn]
  | call callee arguments line hcallee harguments =>
    intro scope first
    rw [violations, inside, closures, Faultless.concat_iff, Faultless.append_iff, List.append_eq_nil_iff,
      hcallee scope first, violationsOf_eq_nil_iff harguments]
    exact (and_iff_left trivial).symm
  | assignment name value declares line hvalue =>
    intro scope first
    rw [violations, inside, closures, Faultless.concat_iff, List.append_eq_nil_iff, hvalue scope first]
    cases declares <;> simp [SoundIn]
  | function name parameters body line hbody =>
    intro scope first
    have hclosure := @Closure.wellFormed_ofBody_iff strict first (name.getD Lowering.anonymous) parameters
      body line
    rw [violations, inside, closures, List.append_eq_nil_iff, violationsOf_eq_nil_iff hbody _ first]
    simp only [Faultless, List.forall_mem_singleton, List.forall_mem_append, hclosure]
    constructor
    · rintro ⟨hdeclared, hnodes, hclosures⟩
      exact ⟨trivial, hclosures, hdeclared, hnodes⟩
    · rintro ⟨-, hclosures, hdeclared, hnodes⟩
      exact ⟨hdeclared, hnodes, hclosures⟩
  | ret value line hvalue =>
    intro scope first
    rw [violations, inside, closures, Faultless.concat_iff, hvalue scope first]
    exact (and_iff_left trivial).symm
  | conditional condition thenBlock elseBlock line hcondition hthen helse =>
    intro scope first
    rw [violations, inside, closures, Faultless.concat_iff, Faultless.append_iff, Faultless.append_iff,
      List.append_eq_nil_iff, List.append_eq_nil_iff, hcondition scope first, violationsOf_eq_nil_iff hthen,
      violationsOf_eq_nil_iff helse]
    exact (and_iff_left trivial).symm
  | object fields line hfields =>
    intro scope first
    rw [violations, inside, closures, Faultless.concat_iff, List.append_eq_nil_iff, List.map_eq_nil_iff,
      repetitions_eq_nil_iff, fieldViolations_eq_nil_iff hfields scope first, and_comm, List.map_id]
    exact and_congr_right' (and_iff_left fun _ _ ↦ List.not_mem_nil)
  | fieldAccess receiver name line hreceiver =>
    intro scope first
    rw [violations, inside, closures, Faultless.concat_iff, hreceiver scope first]
    exact (and_iff_left trivial).symm
  | fieldAssignment receiver name value line hreceiver hvalue =>
    intro scope first
    rw [violations, inside, closures, Faultless.concat_iff, Faultless.append_iff, List.append_eq_nil_iff,
      hreceiver scope first, hvalue scope]
    exact (and_iff_left trivial).symm
  | methodCall receiver name arguments line hreceiver harguments =>
    intro scope first
    rw [violations, inside, closures, Faultless.concat_iff, Faultless.append_iff, List.append_eq_nil_iff,
      hreceiver scope first, violationsOf_eq_nil_iff harguments]
    exact (and_iff_left trivial).symm

/-- Nothing is wrong with a script exactly when all its functions are well formed. -/
theorem Script.violations_eq_nil_iff (strict : Bool) (script : Script) (first : Nat) :
    script.violations strict = [] ↔ ∀ closure ∈ script.closures first, closure.WellFormed strict := by
  have hnodes := @violationsOf_eq_nil_iff strict script.body.nodes
    (fun node _ ↦ node.violations_eq_nil_iff strict) (scopeOf [] script.body) first
  rw [violations, closures, List.append_eq_nil_iff, hnodes, List.forall_mem_append, List.forall_mem_singleton,
    Closure.wellFormed_ofBody_iff script.body.line, Faultless]
  exact ⟨fun ⟨hdeclared, hsound, hclosures⟩ ↦ ⟨hclosures, hdeclared, hsound⟩,
    fun ⟨hclosures, hdeclared, hsound⟩ ↦ ⟨hdeclared, hsound, hclosures⟩⟩

/-! ### Assignments without a variable -/

/-- There is an assignment to a name on a line that does not declare it, and the name has no variable. -/
def Unassignable (name : String) (line : UInt32) (scope : List String) (inside : List Node) : Prop :=
  (∃ value : Node, .assignment name value false line ∈ inside) ∧ name ∉ scope

/-- Among the nodes of a function, or in one of some other functions, there is such an assignment. -/
def Unresolved (name : String) (line : UInt32) (scope : List String) (inside : List Node)
    (closures : List Closure) : Prop :=
  Unassignable name line scope inside ∨ ∃ closure ∈ closures,
    Unassignable name line (scopeOf closure.parameters closure.body) (insideOf closure.body.nodes)

/-- An assignment without a variable stays one among more nodes and functions. -/
theorem Unresolved.mono {name : String} {line : UInt32} {scope : List String} {inside more : List Node}
    {closures added : List Closure} (hunresolved : Unresolved name line scope inside closures)
    (hinside : inside ⊆ more) (hclosures : closures ⊆ added) : Unresolved name line scope more added :=
  hunresolved.imp (And.imp_left fun ⟨value, hvalue⟩ ↦ ⟨value, hinside hvalue⟩)
    fun ⟨closure, hclosure, hinner⟩ ↦ ⟨closure, hclosures hclosure, hinner⟩

theorem not_mem_redeclarations {name : String} {line : UInt32} {strict : Bool} {parameters : List String}
    {body : Block Node} {bodyLine : UInt32} :
    .unresolvedLocal name line ∉ redeclarations strict parameters body bodyLine := by
  unfold redeclarations
  split_ifs <;> simp

/-- A complaint about an unresolved name in several nodes comes from one of them. -/
theorem unresolved_of_mem_violationsOf {name : String} {line : UInt32} {strict : Bool} {nodes : List Node}
    (hnodes : ∀ node ∈ nodes, ∀ (scope : List String) (first : Nat),
      .unresolvedLocal name line ∈ node.violations strict scope →
        Unresolved name line scope node.inside (node.closures first))
    (scope : List String) (first : Nat)
    (hmem : .unresolvedLocal name line ∈ violationsOf strict scope nodes) :
    Unresolved name line scope (insideOf nodes) (closuresOf first nodes) := by
  induction nodes generalizing first with
  | nil => exact absurd hmem List.not_mem_nil
  | cons node rest ih =>
    rcases List.mem_append.mp hmem with hhere | hrest
    · exact (hnodes node List.mem_cons_self scope first hhere).mono (List.subset_append_left _ _)
        (List.subset_append_left _ _)
    · exact (ih (fun inner hinner ↦ hnodes inner (List.mem_cons_of_mem _ hinner)) _ hrest).mono
        (List.subset_append_right _ _) (List.subset_append_right _ _)

theorem unresolved_of_mem_fieldViolations {name : String} {line : UInt32} {strict : Bool}
    {fields : List (Field Node)}
    (hfields : ∀ field ∈ fields, ∀ (scope : List String) (first : Nat),
      .unresolvedLocal name line ∈ field.value.violations strict scope →
        Unresolved name line scope field.value.inside (field.value.closures first))
    (scope : List String) (first : Nat)
    (hmem : .unresolvedLocal name line ∈ fieldViolations strict scope fields) :
    Unresolved name line scope (fieldInside fields) (fieldClosures first fields) := by
  induction fields generalizing first with
  | nil => exact absurd hmem List.not_mem_nil
  | cons field rest ih =>
    rcases List.mem_append.mp hmem with hhere | hrest
    · exact (hfields field List.mem_cons_self scope first hhere).mono (List.subset_append_left _ _)
        (List.subset_append_left _ _)
    · exact (ih (fun inner hinner ↦ hfields inner (List.mem_cons_of_mem _ hinner)) _ hrest).mono
        (List.subset_append_right _ _) (List.subset_append_right _ _)

/-- A complaint about an unresolved name comes from an assignment that does not declare it. -/
theorem Node.unresolved_of_mem_violations {name : String} {line : UInt32} {strict : Bool} (node : Node) :
    ∀ (scope : List String) (first : Nat), .unresolvedLocal name line ∈ node.violations strict scope →
      Unresolved name line scope node.inside (node.closures first) := by
  induction node using Node.induction with
  | block body hbody =>
    intro scope first hmem
    exact (unresolved_of_mem_violationsOf hbody scope first hmem).mono (List.subset_append_left _ _)
      (List.Subset.refl _)
  | literal value line | access name line =>
    intro scope first hmem
    exact absurd hmem List.not_mem_nil
  | call callee arguments line hcallee harguments =>
    intro scope first hmem
    rw [violations, List.mem_append] at hmem
    rw [inside, closures]
    rcases hmem with hhere | hrest
    · exact (hcallee scope first hhere).mono (by grind) (List.subset_append_left _ _)
    · exact (unresolved_of_mem_violationsOf harguments scope _ hrest).mono (by grind)
        (List.subset_append_right _ _)
  | assignment target value declares targetLine hvalue =>
    intro scope first hmem
    rw [violations, List.mem_append] at hmem
    rw [inside, closures]
    rcases hmem with hinner | hhere
    · exact (hvalue scope first hinner).mono (List.subset_append_left _ _) (List.Subset.refl _)
    · split_ifs at hhere with hfine
      · exact absurd hhere List.not_mem_nil
      · obtain ⟨rfl, rfl⟩ := CompileError.unresolvedLocal.inj (List.mem_singleton.mp hhere)
        obtain ⟨hdeclares, hnew⟩ := not_or.mp hfine
        obtain rfl := eq_false_of_ne_true hdeclares
        exact Or.inl ⟨⟨value, List.mem_append_right _ (List.mem_singleton_self _)⟩, hnew⟩
  | function own parameters body line hbody =>
    intro scope first hmem
    rw [violations, List.mem_append] at hmem
    rw [closures]
    rcases hmem with hhere | hinner
    · exact absurd hhere not_mem_redeclarations
    · refine Or.inr ?_
      rcases unresolved_of_mem_violationsOf hbody _ first hinner with hown | ⟨closure, hclosure, hnested⟩
      · exact ⟨_, List.mem_append_right _ (List.mem_singleton_self _), hown⟩
      · exact ⟨closure, List.mem_append_left _ hclosure, hnested⟩
  | ret value line hvalue =>
    intro scope first hmem
    exact (hvalue scope first hmem).mono (List.subset_append_left _ _) (List.Subset.refl _)
  | conditional condition thenBlock elseBlock line hcondition hthen helse =>
    intro scope first hmem
    rw [violations, List.mem_append, List.mem_append] at hmem
    rw [inside, closures]
    rcases hmem with (hhere | htaken) | hother
    · exact (hcondition scope first hhere).mono (by grind) (by grind)
    · exact (unresolved_of_mem_violationsOf hthen scope (first + condition.sites) htaken).mono (by grind)
        (by grind)
    · exact (unresolved_of_mem_violationsOf helse scope _ hother).mono (by grind)
        (List.subset_append_right _ _)
  | object fields line hfields =>
    intro scope first hmem
    rw [violations, List.mem_append] at hmem
    rcases hmem with hhere | hinner
    · simp at hhere
    · exact (unresolved_of_mem_fieldViolations hfields scope first hinner).mono
        (List.subset_append_left _ _) (List.Subset.refl _)
  | fieldAccess receiver field line hreceiver =>
    intro scope first hmem
    exact (hreceiver scope first hmem).mono (List.subset_append_left _ _) (List.Subset.refl _)
  | fieldAssignment receiver field value line hreceiver hvalue =>
    intro scope first hmem
    rw [violations, List.mem_append] at hmem
    rw [inside, closures]
    rcases hmem with hhere | hrest
    · exact (hreceiver scope first hhere).mono (by grind) (List.subset_append_left _ _)
    · exact (hvalue scope _ hrest).mono (by grind) (List.subset_append_right _ _)
  | methodCall receiver method arguments line hreceiver harguments =>
    intro scope first hmem
    rw [violations, List.mem_append] at hmem
    rw [inside, closures]
    rcases hmem with hhere | hrest
    · exact (hreceiver scope first hhere).mono (by grind) (List.subset_append_left _ _)
    · exact (unresolved_of_mem_violationsOf harguments scope _ hrest).mono (by grind)
        (List.subset_append_right _ _)

/-- A complaint about an unresolved name comes from an assignment in a function of the script which does not
declare the name, where the name is neither the receiver nor a parameter nor declared by another assignment. -/
theorem Script.exists_assignment_of_unresolved {name : String} {line : UInt32} {strict : Bool}
    {script : Script} (first : Nat) (hmem : .unresolvedLocal name line ∈ script.violations strict) :
    ∃ closure ∈ script.closures first,
      Unassignable name line (scopeOf closure.parameters closure.body) (insideOf closure.body.nodes) := by
  rcases List.mem_append.mp hmem with hhere | hinner
  · exact absurd hhere not_mem_redeclarations
  rcases unresolved_of_mem_violationsOf (fun node _ ↦ node.unresolved_of_mem_violations) _ first hinner with
    hown | ⟨closure, hclosure, hnested⟩
  · exact ⟨_, List.mem_append_right _ (List.mem_singleton_self _), hown⟩
  · exact ⟨closure, List.mem_append_left _ hclosure, hnested⟩

end ScriptMachine
