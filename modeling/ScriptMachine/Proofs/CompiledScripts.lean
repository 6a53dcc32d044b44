import ScriptMachine.Proofs.Complaints
import ScriptMachine.Proofs.Lowered
import ScriptMachine.Proofs.VerifiableCode

/-!
# Compiled scripts

What the compiler makes of a script, over any constants. It accepts exactly the scripts that are well formed and
otherwise ends with the first complaint (`compileScript_accepts`). Every function of a script that it accepts
becomes verifiable code (`compileScript_verifiable`).

`Workspace.Collects` says what a part of a compilation leaves in the workspace, and `Lowering.Emits` adds that the
code of the part leaves a number of values. Both are said of a node by `Lowering.Settles`, which holds for all of
them (`Lowering.settles`). The second theorem needs a workspace whose identities are fresh
(`Workspace.Fresh`): a new function or class must not be taken for one that is a constant already.
-/

set_option autoImplicit false
set_option relaxedAutoImplicit false

namespace ScriptMachine

/-! ### Fresh identities -/

/-- The identity of a function or a class. -/
def Value.identity? : Value → Option Nat
  | .function callee => some callee.identity
  | .layout shape => some shape.identity
  | _ => none

/-- Values with the same key are the same, or share their identity. -/
theorem Value.eq_or_identity?_eq {first second : Value} (hkey : first.constantKey? = second.constantKey?)
    (hsome : second.constantKey?.isSome) :
    first = second ∨ ∃ identity : Nat, first.identity? = some identity ∧ second.identity? = some identity := by
  cases first <;> cases second <;> simp_all [constantKey?, identity?]

/-- The first constant is undefined, and the functions and classes among the constants have identities that were
given away. -/
structure Workspace.Fresh (workspace : Workspace) : Prop where
  undefined : workspace.constants.entries[0]? = some .undefined
  identities : ∀ entry ∈ workspace.constants.entries, ∀ identity ∈ entry.identity?,
    identity < workspace.nextIdentity

namespace Workspace.Fresh

variable {workspace : Workspace} {value : Value}

/-- A value with a new identity, or without one, gets a word of its own. -/
theorem boxed_box (hfresh : workspace.Fresh)
    (hnew : ∀ identity ∈ value.identity?, workspace.nextIdentity ≤ identity) :
    (workspace.constants.box value).2.Boxed (workspace.constants.box value).1 value := by
  obtain ⟨found, hboxed, rfl | ⟨hmem, hkey, hsome⟩⟩ :=
    ConstantTable.exists_boxed_box workspace.constants value
  · exact hboxed
  rcases Value.eq_or_identity?_eq hkey hsome with rfl | ⟨identity, hold, hsame⟩
  · exact hboxed
  · exact absurd (hfresh.identities found hmem identity hold) (Nat.not_lt.mpr (hnew identity hsame))

/-- Identities stay fresh with a new constant. -/
theorem box (hfresh : workspace.Fresh) {next : Nat} (hnext : workspace.nextIdentity ≤ next)
    (hless : ∀ identity ∈ value.identity?, identity < next) :
    Workspace.Fresh ⟨(workspace.constants.box value).2, next⟩ := by
  refine ⟨ConstantTable.box_extends _ _ 0 _ hfresh.undefined, fun entry hentry identity hidentity ↦ ?_⟩
  rcases ConstantTable.mem_entries_box hentry with hold | rfl
  · exact Nat.lt_of_lt_of_le (hfresh.identities entry hold identity hidentity) hnext
  · exact hless identity hidentity

end Workspace.Fresh

/-! ### Workspaces -/

/-- A routine is verifiable code for a function. -/
structure Routine.Implements (routine : Routine) (closure : Closure) (table : ConstantTable) : Prop where
  identity : routine.identity = closure.identity
  name : routine.name = closure.name
  parameters : routine.unit.parameterCount = closure.parameters.length + 1
  verifiable : routine.unit.Verifiable table

/-- More constants leave the code of a function as it is. -/
theorem Routine.Implements.mono {routine : Routine} {closure : Closure} {table larger : ConstantTable}
    (himplements : routine.Implements closure table) (hextends : table.Extends larger) :
    routine.Implements closure larger :=
  ⟨himplements.identity, himplements.name, himplements.parameters, himplements.verifiable.mono hextends⟩

/-- A function has verifiable code among the constants. -/
def Closure.Implemented (closure : Closure) (table : ConstantTable) : Prop :=
  ∃ routine : Routine, .function (.compiled routine) ∈ table.entries ∧ routine.Implements closure table

theorem Closure.Implemented.mono {closure : Closure} {table larger : ConstantTable}
    (hextends : table.Extends larger) (himplemented : closure.Implemented table) :
    closure.Implemented larger :=
  himplemented.imp fun _ ⟨hmem, himplements⟩ ↦ ⟨hextends.mem hmem, himplements.mono hextends⟩

/-- A workspace has given away some identities, and the code of some functions has been added. -/
structure Workspace.Collects (before after : Workspace) (closures : List Closure) (sites : Nat) : Prop where
  constants : before.constants.Extends after.constants
  next : after.nextIdentity = before.nextIdentity + sites
  fresh : before.Fresh → after.Fresh
  implemented : before.Fresh → ∀ closure ∈ closures, closure.Implemented after.constants

namespace Workspace.Collects

variable {first second third : Workspace} {closures added : List Closure} {sites more : Nat}

theorem refl (workspace : Workspace) : workspace.Collects workspace [] 0 :=
  ⟨.refl _, rfl, id, fun _ _ hnone ↦ nomatch hnone⟩

theorem trans (hfirst : first.Collects second closures sites) (hsecond : second.Collects third added more) :
    first.Collects third (closures ++ added) (sites + more) := by
  refine ⟨hfirst.constants.trans hsecond.constants, ?_, hsecond.fresh ∘ hfirst.fresh, fun hfresh closure hmem ↦ ?_⟩
  · rw [hsecond.next, hfirst.next, Nat.add_assoc]
  rcases List.mem_append.mp hmem with hold | hnew
  · exact (hfirst.implemented hfresh closure hold).mono hsecond.constants
  · exact hsecond.implemented (hfirst.fresh hfresh) closure hnew

/-- The code of one more function has been added. -/
theorem add (hcollects : first.Collects second closures sites) {closure : Closure}
    (hclosure : first.Fresh → closure.Implemented second.constants) :
    first.Collects second (closures ++ [closure]) sites := by
  refine ⟨hcollects.constants, hcollects.next, hcollects.fresh, fun hfresh other hmem ↦ ?_⟩
  rcases List.mem_append.mp hmem with hold | hnew
  · exact hcollects.implemented hfresh other hold
  · obtain rfl := List.mem_singleton.mp hnew
    exact hclosure hfresh

/-- A value is made a constant, maybe with one of some new identities. -/
theorem box (workspace : Workspace) {value : Value} (count : Nat)
    (hless : ∀ identity ∈ value.identity?, identity < workspace.nextIdentity + count) :
    workspace.Collects ⟨(workspace.constants.box value).2, workspace.nextIdentity + count⟩ [] count :=
  ⟨ConstantTable.box_extends _ _, rfl, fun hfresh ↦ hfresh.box (Nat.le_add_right _ _) hless,
    fun _ _ hnone ↦ nomatch hnone⟩

end Workspace.Collects

namespace Lowering

/-! ### Constants -/

theorem yields_constant (workspace : Workspace) (value : Value) :
    Yields (constant value) workspace [] fun word after ↦ word = (workspace.constants.box value).1 ∧
      after = ⟨(workspace.constants.box value).2, workspace.nextIdentity⟩ :=
  ⟨rfl, ConstantTable.box_extends _ _, rfl, rfl⟩

/-- A value without an identity gets a word of its own. -/
theorem yields_scalar (workspace : Workspace) {value : Value} (hvalue : value.identity? = none) :
    Yields (constant value) workspace [] fun word after ↦
      workspace.Collects after [] 0 ∧ (workspace.Fresh → after.constants.Boxed word value) := by
  have hnone : ∀ (bound : Nat → Prop), ∀ identity ∈ value.identity?, bound identity :=
    fun _ identity hidentity ↦ by simp [hvalue] at hidentity
  refine (yields_constant workspace value).weaken ?_
  rintro word after ⟨rfl, rfl⟩
  exact ⟨.box workspace 0 (hnone _), fun hfresh ↦ hfresh.boxed_box (hnone _)⟩

/-- A literal gets a word that stands for its value. -/
theorem yields_literalWord (workspace : Workspace) (value : Literal) :
    Yields (literalWord value) workspace [] fun word after ↦ workspace.Collects after [] 0 ∧
      (workspace.Fresh → (Instruction.constant word).Means after.constants (.push value.toValue)) := by
  unfold literalWord
  cases value with
  | integer number =>
    dsimp only
    cases hword : Word.ofInteger? number with
    | some word => exact .pure ⟨.refl _, fun _ ↦ .integer hword⟩
    | none => exact (yields_scalar workspace rfl).weaken fun _ _ hboxed ↦
        ⟨hboxed.1, fun hfresh ↦ .constant (hboxed.2 hfresh)⟩
  | text content => exact (yields_scalar workspace rfl).weaken fun _ _ hboxed ↦
      ⟨hboxed.1, fun hfresh ↦ .constant (hboxed.2 hfresh)⟩
  | boolean value => exact (yields_scalar workspace rfl).weaken fun _ _ hboxed ↦
      ⟨hboxed.1, fun hfresh ↦ .constant (hboxed.2 hfresh)⟩
  | undefined => exact .pure ⟨.refl _, fun hfresh ↦ .constant ⟨0, hfresh.undefined, rfl⟩⟩

theorem yields_freshIdentity (workspace : Workspace) :
    Yields freshIdentity workspace [] fun identity after ↦
      identity = workspace.nextIdentity ∧ after = ⟨workspace.constants, workspace.nextIdentity + 1⟩ :=
  ⟨rfl, .refl _, rfl, rfl⟩

/-! ### Code -/

/-- The code of a part of a function with some slots leaves a number of values. -/
structure Emits (before : Workspace) (slots : SlotTable) (closures : List Closure) (sites values : Nat)
    (code : Fragment) (after : Workspace) : Prop where
  collects : before.Collects after closures sites
  flows : before.Fresh → ∀ depth : Nat, code.Flows after.constants slots.size depth (depth + values)

namespace Emits

variable {first second third : Workspace} {slots : SlotTable} {closures added : List Closure}
  {sites more values count : Nat} {code tail : Fragment}

theorem nil (workspace : Workspace) (slots : SlotTable) : Emits workspace slots [] 0 0 [] workspace :=
  ⟨.refl _, fun _ depth ↦ .nil depth⟩

/-- More is collected without code. -/
theorem collect (hemits : Emits first slots closures sites values code second)
    (hcollects : second.Collects third added more) :
    Emits first slots (closures ++ added) (sites + more) values code third :=
  ⟨hemits.collects.trans hcollects, fun hfresh depth ↦ (hemits.flows hfresh depth).mono hcollects.constants⟩

/-- Code is added that needs nothing new. -/
theorem code_append (hemits : Emits first slots closures sites values code second)
    (htail : first.Fresh → ∀ depth : Nat,
      tail.Flows second.constants slots.size (depth + values) (depth + count)) :
    Emits first slots closures sites count (code ++ tail) second :=
  ⟨hemits.collects, fun hfresh depth ↦ (hemits.flows hfresh depth).append (htail hfresh depth)⟩

theorem append (hfirst : Emits first slots closures sites values code second)
    (hsecond : Emits second slots added more count tail third) :
    Emits first slots (closures ++ added) (sites + more) (values + count) (code ++ tail) third := by
  refine ⟨hfirst.collects.trans hsecond.collects, fun hfresh depth ↦ ?_⟩
  have hcode := (hfirst.flows hfresh depth).mono hsecond.collects.constants
  have htail := hsecond.flows (hfirst.collects.fresh hfresh) (depth + values)
  rw [← Nat.add_assoc]
  exact hcode.append htail

/-- An instruction is added that finds enough values and is followed by the next one. -/
theorem instruction (hemits : Emits first slots closures sites values code second) (count : Nat)
    (line : UInt32) {instruction : Instruction} {operation : Operation}
    (hmeans : first.Fresh → instruction.Means second.constants operation)
    (hcount : values = count + operation.pops) (hslot : ∀ slot ∈ operation.slot?, slot < slots.size)
    (hnext : ∀ next : Nat, operation.successors next = [next]) :
    Emits first slots closures sites (count + operation.pushes) (code ++ [.plain instruction line]) second := by
  refine hemits.code_append fun hfresh depth ↦ ?_
  rw [hcount, ← Nat.add_assoc, ← Nat.add_assoc]
  exact .plain (hmeans hfresh) hslot hnext operation.pushes_le

/-- An instruction without a slot is added. -/
theorem straight (hemits : Emits first slots closures sites values code second) (count : Nat)
    (line : UInt32) {instruction : Instruction} {operation : Operation}
    (hmeans : first.Fresh → instruction.Means second.constants operation)
    (hcount : values = count + operation.pops) (hslot : operation.slot? = none)
    (hnext : ∀ next : Nat, operation.successors next = [next]) :
    Emits first slots closures sites (count + operation.pushes) (code ++ [.plain instruction line]) second := by
  refine hemits.instruction count line hmeans hcount (fun slot hmem ↦ ?_) hnext
  rw [hslot] at hmem
  cases hmem

/-- Undefined is pushed. -/
theorem undefinedAt (hemits : Emits first slots closures sites values code second) (line : UInt32) :
    Emits first slots closures sites (values + 1) (code ++ Lowering.undefinedAt line) second :=
  hemits.code_append fun hfresh depth ↦
    .undefinedAt (hemits.collects.fresh hfresh).undefined line (depth + values)

/-- Where a statement stands for a value, undefined is the value. -/
theorem value {node : Node} (hemits : Emits first slots closures sites (Part.node node).valueCount code second) :
    Emits first slots closures sites 1 (valueOf node code) second := by
  rw [Part.valueCount] at hemits
  unfold valueOf
  split_ifs at hemits ⊢
  · exact hemits.undefinedAt node.line
  · exact hemits

/-- Where an expression stands for a statement, its value is dropped. -/
theorem statement {node : Node}
    (hemits : Emits first slots closures sites (Part.node node).valueCount code second) :
    Emits first slots closures sites 0 (statementOf node code) second := by
  rw [Part.valueCount] at hemits
  unfold statementOf
  split_ifs at hemits ⊢
  · exact hemits
  · exact hemits.straight 0 node.line (fun _ ↦ .pop) rfl rfl fun _ ↦ rfl

end Emits

/-! ### Rows of nodes -/

/-- There is a slot for every name that stands for a variable and no other, and some declared variables are
among them. -/
structure Scoped (slots : SlotTable) (scope : List String) (declarations : List Declaration) : Prop where
  names : ∀ name : String, name ∈ slots.names ↔ name ∈ scope
  declared : ∀ declaration ∈ declarations, declaration.name ∈ scope

theorem Scoped.of_subset {slots : SlotTable} {scope : List String} {declarations fewer : List Declaration}
    (hscoped : Scoped slots scope declarations) (hfewer : fewer ⊆ declarations) : Scoped slots scope fewer :=
  ⟨hscoped.names, fun declaration hmem ↦ hscoped.declared declaration (hfewer hmem)⟩

/-- The compiler ends with the first complaint about a node or with code for it. -/
def Settles (node : Node) : Prop :=
  ∀ (strict : Bool) (slots : SlotTable) (scope : List String) (workspace : Workspace),
    Scoped slots scope node.declarations →
    Yields (lowerNode strict slots node) workspace (node.violations strict scope)
      (Emits workspace slots (node.closures workspace.nextIdentity) node.sites (Part.node node).valueCount)

variable {strict : Bool} {slots : SlotTable} {scope : List String}

/-- Nodes whose values are kept. -/
theorem yields_lowerValues {nodes : List Node} (hnodes : ∀ node ∈ nodes, Settles node) (workspace : Workspace)
    (hscoped : Scoped slots scope (declarationsOf nodes)) :
    Yields (lowerValues strict slots nodes) workspace (violationsOf strict scope nodes)
      (Emits workspace slots (closuresOf workspace.nextIdentity nodes) (sitesOf nodes) nodes.length) := by
  induction nodes generalizing workspace with
  | nil => exact .pure (.nil workspace slots)
  | cons node rest ih =>
    have hnode := hnodes node List.mem_cons_self strict slots scope workspace
      (hscoped.of_subset (List.subset_append_left _ _))
    rw [lowerValues, violationsOf, ← List.append_nil (violationsOf strict scope rest)]
    refine hnode.bind fun code second _ hcode ↦ ?_
    refine (ih (fun other hother ↦ hnodes other (List.mem_cons_of_mem _ hother)) second
      (hscoped.of_subset (List.subset_append_right _ _))).bind fun restCode third _ hrest ↦ .pure ?_
    rw [hcode.collects.next] at hrest
    rw [List.length_cons, Nat.add_comm rest.length]
    exact hcode.value.append hrest

/-- Nodes whose values are dropped. -/
theorem yields_lowerStatements {nodes : List Node} (hnodes : ∀ node ∈ nodes, Settles node)
    (workspace : Workspace) (hscoped : Scoped slots scope (declarationsOf nodes)) :
    Yields (lowerStatements strict slots nodes) workspace (violationsOf strict scope nodes)
      (Emits workspace slots (closuresOf workspace.nextIdentity nodes) (sitesOf nodes) 0) := by
  induction nodes generalizing workspace with
  | nil => exact .pure (.nil workspace slots)
  | cons node rest ih =>
    have hnode := hnodes node List.mem_cons_self strict slots scope workspace
      (hscoped.of_subset (List.subset_append_left _ _))
    rw [lowerStatements, violationsOf, ← List.append_nil (violationsOf strict scope rest)]
    refine hnode.bind fun code second _ hcode ↦ ?_
    refine (ih (fun other hother ↦ hnodes other (List.mem_cons_of_mem _ hother)) second
      (hscoped.of_subset (List.subset_append_right _ _))).bind fun restCode third _ hrest ↦ .pure ?_
    rw [hcode.collects.next] at hrest
    exact hcode.statement.append hrest

/-- The initial values of fields. -/
theorem yields_lowerFields {fields : List (Field Node)} (hfields : ∀ field ∈ fields, Settles field.value)
    (workspace : Workspace) (hscoped : Scoped slots scope (fieldDeclarations fields)) :
    Yields (lowerFields strict slots fields) workspace (fieldViolations strict scope fields)
      (Emits workspace slots (fieldClosures workspace.nextIdentity fields) (fieldSites fields)
        fields.length) := by
  induction fields generalizing workspace with
  | nil => exact .pure (.nil workspace slots)
  | cons field rest ih =>
    have hfield := hfields field List.mem_cons_self strict slots scope workspace
      (hscoped.of_subset (List.subset_append_left _ _))
    rw [lowerFields, fieldViolations, ← List.append_nil (fieldViolations strict scope rest)]
    refine hfield.bind fun code second _ hcode ↦ ?_
    refine (ih (fun other hother ↦ hfields other (List.mem_cons_of_mem _ hother)) second
      (hscoped.of_subset (List.subset_append_right _ _))).bind fun restCode third _ hrest ↦ .pure ?_
    rw [hcode.collects.next] at hrest
    rw [List.length_cons, Nat.add_comm rest.length]
    exact hcode.value.append hrest

/-! ### Functions -/

/-- What is left in the workspace when the body of a function has been compiled: its routine has the last of the
identities that were given away, and is no constant yet. -/
structure Completes (before : Workspace) (closure : Closure) (closures : List Closure) (sites : Nat)
    (routine : Routine) (after : Workspace) : Prop where
  next : after.nextIdentity = routine.identity + 1
  collects : before.Collects ⟨after.constants, routine.identity⟩ closures sites
  implements : before.Fresh → routine.Implements closure after.constants

/-- Functions are settled when the nodes of their body are. -/
theorem yields_routineOf {body : Block Node} (hbody : ∀ node ∈ body.nodes, Settles node) (name : String)
    (parameters : List String) (line : UInt32) (workspace : Workspace) :
    Yields (routineOf strict name parameters body line fun slots ↦ lowerStatements strict slots body.nodes)
      workspace
      (redeclarations strict parameters body line ++
        violationsOf strict (scopeOf parameters body) body.nodes)
      (Completes workspace (Closure.ofBody workspace.nextIdentity name parameters body)
        (closuresOf workspace.nextIdentity body.nodes) (sitesOf body.nodes)) := by
  have hspec := SlotTable.allocate_spec parameters body strict line
  unfold routineOf
  cases hslots : SlotTable.allocate parameters body strict line with
  | error fault =>
    rw [hslots] at hspec
    refine .throw ?_
    rw [List.head?_append, hspec, Option.some_or]
  | ok slots =>
    rw [hslots] at hspec
    obtain ⟨hnone, hnames, hsize⟩ := hspec
    have hscoped : Scoped slots (scopeOf parameters body) (declarationsOf body.nodes) := by
      refine ⟨hnames, fun declaration hmem ↦ ?_⟩
      rw [body.declarationsOf_nodes] at hmem
      exact List.mem_append_right _ (List.mem_map_of_mem hmem)
    dsimp only
    rw [hnone, List.nil_append, ← List.append_nil (violationsOf strict (scopeOf parameters body) body.nodes)]
    refine (yields_lowerStatements hbody workspace hscoped).bind fun code second _ hcode ↦ ?_
    refine (yields_freshIdentity second).bind ?_
    rintro identity third - ⟨rfl, rfl⟩
    refine .pure ⟨rfl, hcode.collects, fun hfresh ↦ ⟨hcode.collects.next, rfl, rfl, ?_⟩⟩
    exact (hcode.flows hfresh 0).verifiable (hcode.collects.fresh hfresh).undefined hsize _

/-- The routine of a completed function becomes a constant. -/
theorem Completes.box {before after : Workspace} {closure : Closure} {closures : List Closure} {sites : Nat}
    {routine : Routine} (hcompletes : Completes before closure closures sites routine after) :
    before.Collects ⟨(after.constants.box (.function (.compiled routine))).2, after.nextIdentity⟩
        (closures ++ [closure]) (sites + 1) ∧
      (before.Fresh → (after.constants.box (.function (.compiled routine))).2.Boxed
        (after.constants.box (.function (.compiled routine))).1 (.function (.compiled routine))) := by
  have hidentity : ∀ identity ∈ (Value.function (.compiled routine)).identity?, identity = routine.identity :=
    fun identity hmem ↦ (Option.some.inj hmem).symm
  have hboxed : before.Fresh → (after.constants.box (.function (.compiled routine))).2.Boxed
      (after.constants.box (.function (.compiled routine))).1 (.function (.compiled routine)) :=
    fun hfresh ↦ (hcompletes.collects.fresh hfresh).boxed_box fun identity hmem ↦
      Nat.le_of_eq (hidentity identity hmem).symm
  have hbox : Workspace.Collects ⟨after.constants, routine.identity⟩
      ⟨(after.constants.box (.function (.compiled routine))).2, routine.identity + 1⟩ [] 1 :=
    .box _ 1 fun identity hmem ↦ Nat.lt_succ_of_le (Nat.le_of_eq (hidentity identity hmem))
  have hcollects := hcompletes.collects.trans hbox
  rw [List.append_nil] at hcollects
  rw [hcompletes.next]
  refine ⟨hcollects.add fun hfresh ↦ ⟨routine, (hboxed hfresh).mem, ?_⟩, hboxed⟩
  exact (hcompletes.implements hfresh).mono hbox.constants

/-! ### Nodes -/

/-- The slot of a name is below the number of slots, also as a word. -/
theorem toNat_slot_lt {name : String} {slot : Nat} (hslot : slots.slotOf? name = some slot) :
    (UInt32.ofNat slot).toNat < slots.size := by
  refine Nat.lt_of_le_of_lt ?_ (SlotTable.slotOf?_lt hslot)
  rw [UInt32.toNat_ofNat']
  exact Nat.mod_le _ _

/-- A method is read from its receiver, which stays behind it. -/
theorem flows_method {table : ConstantTable} {slotCount : Nat} {word : Word} {name : String}
    (hword : table.Boxed word (.text name)) (line : UInt32) (depth : Nat) :
    Fragment.Flows table slotCount (depth + 1) (depth + 2)
      [.plain .duplicate line, .plain (.get word) line, .plain .swap line] := by
  have hduplicate : Fragment.Flows table slotCount (depth + 1) (depth + 2) [.plain .duplicate line] :=
    .straight .duplicate rfl fun _ ↦ rfl
  have hget : Fragment.Flows table slotCount (depth + 2) (depth + 2) [.plain (.get word) line] :=
    @Fragment.Flows.straight _ _ _ _ _ (depth + 1) (.get hword) rfl fun _ ↦ rfl
  have hswap : Fragment.Flows table slotCount (depth + 2) (depth + 2) [.plain .swap line] :=
    .straight .swap rfl fun _ ↦ rfl
  exact hduplicate.append (hget.append hswap)

/-- Every node is settled. -/
theorem settles (node : Node) : Settles node := by
  induction node using Node.induction with
  | block body hbody =>
    intro strict slots scope workspace hscoped
    exact yields_lowerStatements hbody workspace hscoped
  | literal value line =>
    intro strict slots scope workspace _
    refine (yields_literalWord workspace value).bind fun word after _ hword ↦ .pure ⟨hword.1, fun hfresh depth ↦ ?_⟩
    exact .straight (hword.2 hfresh) rfl fun _ ↦ rfl
  | call callee arguments line hcallee harguments =>
    intro strict slots scope workspace hscoped
    rw [lowerNode, Node.violations, ← List.append_nil (violationsOf strict scope arguments)]
    refine (hcallee strict slots scope workspace (hscoped.of_subset (List.subset_append_left _ _))).bind
      fun code second _ hcode ↦ ?_
    refine (yields_lowerValues harguments second (hscoped.of_subset (List.subset_append_right _ _))).bind
      fun argumentCode third _ hargumentCode ↦ .pure ?_
    rw [hcode.collects.next] at hargumentCode
    exact ((hcode.value.undefinedAt line).append hargumentCode).straight 0 line (fun _ ↦ .call arguments.length)
      (by rw [Operation.pops]; omega) rfl fun _ ↦ rfl
  | access name line =>
    intro strict slots scope workspace _
    rw [lowerNode, Node.violations]
    cases hslot : slots.slotOf? name with
    | some slot =>
      refine .pure ((Emits.nil workspace slots).instruction 0 line (fun _ ↦ .load _) rfl ?_ fun _ ↦ rfl)
      rintro _ ⟨⟩
      exact toNat_slot_lt hslot
    | none =>
      refine (yields_scalar workspace rfl).bind fun word after _ hword ↦ .pure ?_
      exact ((Emits.nil workspace slots).collect hword.1).straight 0 line (fun hfresh ↦ .lookup (hword.2 hfresh)) rfl
        rfl fun _ ↦ rfl
  | assignment name value declares line hvalue =>
    intro strict slots scope workspace hscoped
    rw [lowerNode, Node.violations]
    refine (hvalue strict slots scope workspace (hscoped.of_subset (List.subset_append_left _ _))).bind
      fun code second _ hcode ↦ ?_
    cases hslot : slots.slotOf? name with
    | some slot =>
      have hmem : name ∈ scope := by
        rw [← hscoped.names, ← SlotTable.slotOf?_isSome_iff, hslot]
        rfl
      rw [if_pos (Or.inr hmem)]
      refine .pure (hcode.value.instruction 0 line (fun _ ↦ .store _) rfl ?_ fun _ ↦ rfl)
      rintro _ ⟨⟩
      exact toNat_slot_lt hslot
    | none =>
      -- a declared variable has a slot
      have hnew : name ∉ scope := by
        rw [← hscoped.names, ← SlotTable.slotOf?_isSome_iff, hslot]
        exact Bool.false_ne_true
      have hfault : ¬(declares = true ∨ name ∈ scope) := by
        rintro (rfl | hmem)
        · exact hnew (hscoped.declared ⟨name, line⟩ (List.mem_append_right _ (List.mem_singleton_self _)))
        · exact hnew hmem
      rw [if_neg hfault]
      exact .throw rfl
  | function name parameters body line hbody =>
    intro strict slots scope workspace _
    rw [lowerNode, Node.violations, ← List.append_nil (redeclarations strict parameters body line ++ _)]
    refine (yields_routineOf hbody (name.getD anonymous) parameters line workspace).bind
      fun routine second _ hroutine ↦ ?_
    refine (yields_constant second (.function (.compiled routine))).bind ?_
    rintro word third - ⟨rfl, rfl⟩
    obtain ⟨hcollects, hboxed⟩ := hroutine.box
    have hfunction := ((Emits.nil workspace slots).collect hcollects).straight 0 line
      (fun hfresh ↦ .constant (hboxed hfresh)) rfl rfl fun _ ↦ rfl
    rw [Nat.zero_add, List.nil_append] at hfunction
    cases name with
    | none => exact .pure hfunction
    | some bound =>
      refine (yields_scalar _ rfl).bind fun nameWord fourth _ hname ↦ .pure ?_
      have hbound := (hfunction.straight 0 line (fun _ ↦ .duplicate) rfl
        rfl fun _ ↦ rfl).collect hname.1
      rw [List.append_nil] at hbound
      exact hbound.straight 1 line (fun hfresh ↦ .register (hname.2 (hcollects.fresh hfresh))) rfl
        rfl fun _ ↦ rfl
  | ret value line hvalue =>
    intro strict slots scope workspace hscoped
    rw [lowerNode, Node.violations, ← List.append_nil (value.violations strict scope)]
    refine (hvalue strict slots scope workspace hscoped).bind fun code second _ hcode ↦ .pure ?_
    exact hcode.value.code_append fun _ depth ↦ .ret
  | conditional condition thenBlock elseBlock line hcondition hthen helse =>
    intro strict slots scope workspace hscoped
    rw [lowerNode, Node.violations, ← List.append_nil (violationsOf strict scope elseBlock.nodes),
      List.append_assoc]
    have hleft : Scoped slots scope (condition.declarations ++ declarationsOf thenBlock.nodes) :=
      hscoped.of_subset (List.subset_append_left _ _)
    refine (hcondition strict slots scope workspace (hleft.of_subset (List.subset_append_left _ _))).bind
      fun code second _ hcode ↦ ?_
    refine (yields_lowerStatements hthen second (hleft.of_subset (List.subset_append_right _ _))).bind
      fun thenCode third hmore hthenCode ↦ ?_
    refine (yields_lowerStatements helse third (hscoped.of_subset (List.subset_append_right _ _))).bind
      fun elseCode fourth hlast helseCode ↦ .pure ?_
    rw [hthenCode.collects.next, hcode.collects.next] at helseCode
    rw [hcode.collects.next] at hthenCode
    have hcollects := (hcode.collects.trans hthenCode.collects).trans helseCode.collects
    refine ⟨hcollects, fun hfresh depth ↦ ?_⟩
    have hsecond := hcode.collects.fresh hfresh
    have hthird := hthenCode.collects.fresh hsecond
    exact .branch ((hcode.value.flows hfresh depth).mono (hmore.trans hlast))
      ((hthenCode.flows hsecond depth).mono hlast) (helseCode.flows hthird depth)
  | object fields line hfields =>
    intro strict slots scope workspace hscoped
    rw [lowerNode, Node.violations]
    rw [firstRepeated?_eq]
    cases hrepeated : repetitions id [] (fields.map Field.name) with
    | cons name rest => exact .throw rfl
    | nil =>
      have hdifferent := ((repetitions_eq_nil_iff id [] (fields.map Field.name)).mp hrepeated).1
      rw [List.map_id] at hdifferent
      rw [List.map_nil, List.nil_append, ← List.append_nil (fieldViolations strict scope fields)]
      refine (yields_lowerFields hfields workspace hscoped).bind fun code second _ hcode ↦ ?_
      refine (yields_freshIdentity second).bind ?_
      rintro identity third - ⟨rfl, rfl⟩
      refine (yields_constant _ _).bind ?_
      rintro word fourth - ⟨rfl, rfl⟩
      have hidentity : ∀ identity ∈ (Value.layout ⟨second.nextIdentity, fields.map Field.name⟩).identity?,
          identity = second.nextIdentity := fun identity hmem ↦ (Option.some.inj hmem).symm
      have hbox := Workspace.Collects.box second 1 fun identity hmem ↦
        Nat.lt_succ_of_le (Nat.le_of_eq (hidentity identity hmem))
      have hfields := hcode.collect hbox
      rw [List.append_nil] at hfields
      have hnew : workspace.Fresh → Instruction.Means _ (.new _) (.new ⟨second.nextIdentity, _⟩) := fun hfresh ↦
        .new ((hcode.collects.fresh hfresh).boxed_box fun identity hmem ↦
          Nat.le_of_eq (hidentity identity hmem).symm) hdifferent
      refine .pure (hfields.straight 0 line hnew ?_ rfl fun _ ↦ rfl)
      rw [Nat.zero_add, Operation.pops, Class.fieldCount, List.length_map]
  | fieldAccess receiver name line hreceiver =>
    intro strict slots scope workspace hscoped
    rw [lowerNode, Node.violations, ← List.append_nil (receiver.violations strict scope)]
    refine (hreceiver strict slots scope workspace hscoped).bind fun code second _ hcode ↦ ?_
    refine (yields_scalar second rfl).bind fun word third _ hword ↦ .pure ?_
    have hreceived := hcode.value.collect hword.1
    rw [List.append_nil] at hreceived
    exact hreceived.straight 0 line (fun hfresh ↦ .get (hword.2 (hcode.collects.fresh hfresh))) rfl
      rfl fun _ ↦ rfl
  | fieldAssignment receiver name value line hreceiver hvalue =>
    intro strict slots scope workspace hscoped
    rw [lowerNode, Node.violations, ← List.append_nil (value.violations strict scope)]
    refine (hreceiver strict slots scope workspace (hscoped.of_subset (List.subset_append_left _ _))).bind
      fun code second _ hcode ↦ ?_
    refine (hvalue strict slots scope second (hscoped.of_subset (List.subset_append_right _ _))).bind
      fun valueCode third _ hvalueCode ↦ ?_
    refine (yields_scalar third rfl).bind fun word fourth _ hword ↦ .pure ?_
    rw [hcode.collects.next] at hvalueCode
    have hboth := hcode.value.append hvalueCode.value
    have hoperands := hboth.collect hword.1
    rw [List.append_nil] at hoperands
    exact hoperands.straight 0 line (fun hfresh ↦ .put (hword.2 (hboth.collects.fresh hfresh))) rfl
      rfl fun _ ↦ rfl
  | methodCall receiver name arguments line hreceiver harguments =>
    intro strict slots scope workspace hscoped
    rw [lowerNode, Node.violations, ← List.append_nil (violationsOf strict scope arguments)]
    refine (hreceiver strict slots scope workspace (hscoped.of_subset (List.subset_append_left _ _))).bind
      fun code second _ hcode ↦ ?_
    rw [← List.nil_append (violationsOf strict scope arguments ++ [])]
    refine (yields_scalar second rfl).bind fun word third _ hword ↦ ?_
    refine (yields_lowerValues harguments third (hscoped.of_subset (List.subset_append_right _ _))).bind
      fun argumentCode fourth _ hargumentCode ↦ .pure ?_
    rw [hword.1.next, hcode.collects.next] at hargumentCode
    have hreceived := hcode.value.collect hword.1
    rw [List.append_nil] at hreceived
    have hmethod := hreceived.code_append fun hfresh depth ↦
      flows_method (hword.2 (hcode.collects.fresh hfresh)) line depth
    exact (hmethod.append hargumentCode).straight 0 line (fun _ ↦ .call arguments.length)
      (by rw [Operation.pops]; omega) rfl fun _ ↦ rfl

end Lowering

/-! ### Scripts -/

/-- Scripts are settled. -/
theorem yields_compileScript (strict : Bool) (script : Script) (workspace : Workspace) :
    Lowering.Yields (compileScript strict script) workspace (script.violations strict)
      (Lowering.Completes workspace (Closure.ofBody workspace.nextIdentity "main" [] script.body)
        (closuresOf workspace.nextIdentity script.body.nodes) (sitesOf script.body.nodes)) :=
  Lowering.yields_routineOf (fun node _ ↦ Lowering.settles node) "main" [] script.body.line workspace

/-- A script without complaints is accepted. -/
theorem exists_compileScript {strict : Bool} {script : Script} (hnone : script.violations strict = [])
    (workspace : Workspace) :
    ∃ (main : Routine) (after : Workspace), compileScript strict script workspace = .ok main after := by
  have hyields := yields_compileScript strict script workspace
  unfold Lowering.Yields at hyields
  cases hresult : compileScript strict script workspace with
  | ok main after => exact ⟨main, after, rfl⟩
  | error fault after =>
    rw [hresult, hnone] at hyields
    cases hyields.1

/-- A script is accepted over all workspaces, or it is refused over all of them with the same error. -/
theorem compileScript_agrees (strict : Bool) (script : Script) (workspace workspace' : Workspace) :
    (∃ (main main' : Routine) (after after' : Workspace), compileScript strict script workspace = .ok main after ∧
        compileScript strict script workspace' = .ok main' after') ∨
      ∃ (error : CompileError) (after after' : Workspace), compileScript strict script workspace = .error error after ∧
        compileScript strict script workspace' = .error error after' := by
  have hyields := yields_compileScript strict script workspace
  have hyields' := yields_compileScript strict script workspace'
  unfold Lowering.Yields at hyields hyields'
  cases hresult : compileScript strict script workspace with
  | ok main after =>
    rw [hresult] at hyields
    obtain ⟨main', after', hresult'⟩ := exists_compileScript hyields.1 workspace'
    exact Or.inl ⟨main, main', after, after', rfl, hresult'⟩
  | error error after =>
    rw [hresult] at hyields
    cases hresult' : compileScript strict script workspace' with
    | ok main' after' =>
      rw [hresult'] at hyields'
      rw [hyields'.1] at hyields
      cases hyields.1
    | error error' after' =>
      rw [hresult'] at hyields'
      obtain rfl := Option.some.inj (hyields.1.symm.trans hyields'.1)
      exact Or.inr ⟨error, after, after', rfl, rfl⟩

/-- The compiler accepts exactly the well-formed scripts. It ends with the first complaint about any other, which
is about an unresolved name only where an assignment does not declare it. Either way it keeps all constants. -/
theorem compileScript_accepts (strict : Bool) (script : Script) (workspace : Workspace) (first : Nat) :
    ((∃ (main : Routine) (after : Workspace), compileScript strict script workspace = .ok main after) ↔
        ∀ closure ∈ script.closures first, closure.WellFormed strict) ∧
      (∀ (main : Routine) (after : Workspace), compileScript strict script workspace = .ok main after →
        workspace.constants.Extends after.constants) ∧
      ∀ (fault : CompileError) (after : Workspace), compileScript strict script workspace = .error fault after →
        (script.violations strict).head? = some fault ∧ workspace.constants.Extends after.constants ∧
          ∀ (name : String) (line : UInt32), fault = .unresolvedLocal name line →
            ∃ closure ∈ script.closures first,
              Unassignable name line (scopeOf closure.parameters closure.body)
                (insideOf closure.body.nodes) := by
  have hyields := yields_compileScript strict script workspace
  unfold Lowering.Yields at hyields
  rw [← script.violations_eq_nil_iff strict first]
  refine ⟨⟨?_, fun hnone ↦ exists_compileScript hnone workspace⟩, fun main after hresult ↦ ?_,
    fun fault after hresult ↦ ?_⟩
  · rintro ⟨main, after, hresult⟩
    rw [hresult] at hyields
    exact hyields.1
  · rw [hresult] at hyields
    exact hyields.2.1
  · rw [hresult] at hyields
    refine ⟨hyields.1, hyields.2, ?_⟩
    rintro name line rfl
    exact script.exists_assignment_of_unresolved first (List.mem_of_head? hyields.1)

/-- Every function of an accepted script becomes verifiable code: that of the body is the answer, and the others
are constants. -/
theorem compileScript_verifiable {strict : Bool} {script : Script} {workspace after : Workspace}
    {main : Routine} (hfresh : workspace.Fresh)
    (haccepted : compileScript strict script workspace = .ok main after) :
    main.Implements (Closure.ofBody workspace.nextIdentity "main" [] script.body) after.constants ∧
      ∀ closure ∈ closuresOf workspace.nextIdentity script.body.nodes, closure.Implemented after.constants := by
  have hyields := yields_compileScript strict script workspace
  unfold Lowering.Yields at hyields
  rw [haccepted] at hyields
  obtain ⟨-, -, hcompletes⟩ := hyields
  exact ⟨hcompletes.implements hfresh, hcompletes.collects.implemented hfresh⟩

/-- The function `pick` gives an object for a value that is not false, and the script calls it. -/
def Script.picking : Script :=
  ⟨⟨[.function (some "pick") ["x"] ⟨[.conditional (.access "x" 1)
      ⟨[.ret (.object [⟨"value", .access "x" 1⟩] 1) 1], 1⟩ ⟨[], 1⟩ 1], 1⟩ 1,
    .ret (.call (.access "pick" 2) [.literal (.integer 1) 2] 2) 2], 1⟩⟩

/-- The script is accepted over the empty table, and both its functions become verifiable code. -/
theorem compileScript_verifiable_picking :
    Workspace.Fresh ⟨.empty, 0⟩ ∧ ∃ (main : Routine) (after : Workspace),
      compileScript true Script.picking ⟨.empty, 0⟩ = .ok main after ∧
        main.Implements (Closure.ofBody 0 "main" [] Script.picking.body) after.constants ∧
        ∀ closure ∈ closuresOf 0 Script.picking.body.nodes, closure.Implemented after.constants := by
  have hfresh : Workspace.Fresh ⟨.empty, 0⟩ := by
    refine ⟨rfl, fun entry hentry identity hidentity ↦ ?_⟩
    obtain rfl : entry = .undefined := by simpa [ConstantTable.empty] using hentry
    cases hidentity
  have hnone : Script.picking.violations true = [] := by decide
  obtain ⟨main, after, haccepted⟩ := exists_compileScript hnone ⟨.empty, 0⟩
  exact ⟨hfresh, main, after, haccepted, compileScript_verifiable hfresh haccepted⟩

end ScriptMachine
