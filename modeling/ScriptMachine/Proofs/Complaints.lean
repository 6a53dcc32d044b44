import ScriptMachine.Proofs.Constants
import ScriptMachine.Proofs.SlotLayout
import ScriptMachine.Proofs.WellFormed

/-!
# The first complaint of a compilation

`Lowering.Yields` compares a part of a compilation with a list of complaints. The part answers when there are
none, and ends with the first of them otherwise; either way it keeps all constants. It goes through sequences of
parts, where the lists are joined (`Lowering.Yields.bind`).

`SlotTable.allocate_spec` is the comparison for the slots of a function: they are allocated when nothing is
declared twice, and there is a slot for exactly the names that stand for variables.
-/

set_option autoImplicit false
set_option relaxedAutoImplicit false

namespace ScriptMachine

/-! ### Parts of a compilation -/

namespace Lowering

/-- A part of a compilation has a right answer when there are no complaints, and ends with the first one
otherwise. No constant is lost. -/
def Yields {α : Type} (part : Lowering α) (workspace : Workspace) (complaints : List CompileError)
    (right : α → Workspace → Prop) : Prop :=
  match part workspace with
  | .ok answer after =>
    complaints = [] ∧ workspace.constants.Extends after.constants ∧ right answer after
  | .error fault after => complaints.head? = some fault ∧ workspace.constants.Extends after.constants

namespace Yields

variable {α β : Type} {workspace : Workspace} {complaints more : List CompileError}

theorem pure {answer : α} {right : α → Workspace → Prop} (hright : right answer workspace) :
    Yields (Pure.pure answer) workspace [] right :=
  ⟨rfl, .refl _, hright⟩

theorem throw {fault : CompileError} {right : α → Workspace → Prop} (hfirst : complaints.head? = some fault) :
    Yields (throwThe CompileError fault) workspace complaints right :=
  ⟨hfirst, .refl _⟩

/-- What a part complains about comes before what follows it complains about. -/
theorem bind {part : Lowering α} {rest : α → Lowering β} {right : α → Workspace → Prop}
    {rightRest : β → Workspace → Prop} (hpart : Yields part workspace complaints right)
    (hrest : ∀ (answer : α) (after : Workspace), workspace.constants.Extends after.constants →
      right answer after → Yields (rest answer) after more rightRest) :
    Yields (part >>= rest) workspace (complaints ++ more) rightRest := by
  unfold Yields at hpart ⊢
  simp only [Bind.bind, EStateM.bind]
  cases hfirst : part workspace with
  | ok answer after =>
    rw [hfirst] at hpart
    obtain ⟨rfl, hextends, hright⟩ := hpart
    have hsecond := hrest answer after hextends hright
    unfold Yields at hsecond
    dsimp only
    cases hresult : rest answer after with
    | ok final last =>
      rw [hresult] at hsecond
      exact ⟨hsecond.1, hextends.trans hsecond.2.1, hsecond.2.2⟩
    | error fault last =>
      rw [hresult] at hsecond
      exact ⟨hsecond.1, hextends.trans hsecond.2⟩
  | error fault after =>
    rw [hfirst] at hpart
    refine ⟨?_, hpart.2⟩
    rw [List.head?_append, hpart.1, Option.some_or]

/-- A part yields what is weaker. -/
theorem weaken {part : Lowering α} {right weaker : α → Workspace → Prop}
    (hpart : Yields part workspace complaints right)
    (hweaker : ∀ (answer : α) (after : Workspace), right answer after → weaker answer after) :
    Yields part workspace complaints weaker := by
  unfold Yields at hpart ⊢
  cases hresult : part workspace with
  | ok answer after =>
    rw [hresult] at hpart
    exact ⟨hpart.1, hpart.2.1, hweaker answer after hpart.2.2⟩
  | error fault after =>
    rw [hresult] at hpart
    exact hpart

end Yields

/-- The first name that occurs before is the first repetition. -/
theorem firstRepeated?_eq (seen names : List String) :
    firstRepeated? seen names = (repetitions id seen names).head? := by
  induction names generalizing seen with
  | nil => rfl
  | cons name rest ih =>
    rw [firstRepeated?, repetitions, ih]
    simp only [id]
    split_ifs <;> rfl

end Lowering

/-! ### Slots -/

namespace SlotTable

/-- Declaring names one after the other succeeds as long as none is repeated, and fails for the first one that
is. -/
theorem foldlM_declare {α : Type} {name : α → String} {fault : α → CompileError}
    {declare : SlotTable → α → Except CompileError SlotTable}
    (hdeclare : ∀ (table : SlotTable) (member : α), declare table member =
      if name member ∈ table.names then .error (fault member) else .ok (table.declare (name member)).2.2)
    (table : SlotTable) (members : List α) :
    (repetitions name table.names members = [] →
      ∃ later : SlotTable, members.foldlM declare table = .ok later ∧
        later.names = table.names ++ members.map name) ∧
    ∀ (member : α) (more : List α), repetitions name table.names members = member :: more →
      members.foldlM declare table = .error (fault member) := by
  induction members generalizing table with
  | nil =>
    refine ⟨fun _ ↦ ⟨table, rfl, by simp⟩, fun member more hrepeated ↦ ?_⟩
    rw [repetitions] at hrepeated
    cases hrepeated
  | cons member rest ih =>
    rw [List.foldlM_cons, hdeclare, repetitions]
    by_cases hseen : name member ∈ table.names
    · rw [if_pos hseen, if_pos hseen]
      refine ⟨fun hnone ↦ (by cases hnone), fun first more hrepeated ↦ ?_⟩
      obtain ⟨rfl, -⟩ := List.cons.inj hrepeated
      rfl
    · have hnames := (declare_of_not_mem hseen).2
      have hsame : repetitions name (name member :: table.names) rest =
          repetitions name (table.declare (name member)).2.2.names rest :=
        repetitions_congr name (fun read ↦ by rw [hnames]; simp [or_comm]) rest
      rw [if_neg hseen, if_neg hseen, hsame]
      obtain ⟨haccepted, hrefused⟩ := ih (table.declare (name member)).2.2
      refine ⟨fun hnone ↦ ?_, hrefused⟩
      obtain ⟨later, hlater, hall⟩ := haccepted hnone
      refine ⟨later, hlater, ?_⟩
      rw [hall, hnames, List.map_cons, List.append_assoc, List.singleton_append]

/-- Without the strict mode, any variables can be declared. -/
theorem exists_foldlM_declareVariable (table : SlotTable) (declarations : List Declaration) :
    ∃ later : SlotTable, declarations.foldlM (declareVariable false) table = .ok later := by
  induction declarations generalizing table with
  | nil => exact ⟨table, rfl⟩
  | cons declaration rest ih =>
    have hdeclared : ∃ next : SlotTable, declareVariable false table declaration = .ok next := by
      rw [declareVariable_eq]
      by_cases hold : declaration.name ∈ table.names
      · exact ⟨table, if_pos hold⟩
      · exact ⟨_, if_neg hold⟩
    obtain ⟨next, hnext⟩ := hdeclared
    rw [List.foldlM_cons, hnext]
    exact ih next

/-- Allocating the slots of a function fails for the first repetition, if there is one. -/
theorem head?_redeclarations (parameters : List String) (body : Block Node) (strict : Bool) (line : UInt32) :
    (redeclarations strict parameters body line).head? =
      match allocate parameters body strict line with
      | .ok _ => none
      | .error fault => some fault := by
  have hparameters := @foldlM_declare String id (fun name ↦ .redeclaration name line) (declareParameter line)
    (declareParameter_eq line) ofReceiver parameters
  rw [names_ofReceiver, List.map_id, List.singleton_append] at hparameters
  unfold allocate redeclarations
  rw [body.declarationsOf_nodes]
  cases hrepeated : repetitions id [receiverName] parameters with
  | cons name rest =>
    rw [hparameters.2 name rest hrepeated]
    rfl
  | nil =>
    obtain ⟨table, htable, hnames⟩ := hparameters.1 hrepeated
    rw [htable]
    cases strict with
    | false =>
      obtain ⟨later, hlater⟩ := exists_foldlM_declareVariable table body.declared
      simp only [Bind.bind, Except.bind, hlater]
      rfl
    | true =>
      have hvariables := @foldlM_declare Declaration Declaration.name
        (fun declaration ↦ .redeclaration declaration.name declaration.line) (declareVariable true)
        (declareVariable_eq true) table body.declared
      rw [hnames] at hvariables
      simp only [Bind.bind, Except.bind]
      cases hagain : repetitions Declaration.name (receiverName :: parameters) body.declared with
      | nil =>
        obtain ⟨later, hlater, -⟩ := hvariables.1 hagain
        rw [hlater]
        rfl
      | cons declaration rest =>
        rw [hvariables.2 declaration rest hagain]
        rfl

/-- The slots of a function are allocated when nothing is declared twice, and then there is a slot for every
variable and no other. Otherwise the first repetition is complained about. -/
theorem allocate_spec (parameters : List String) (body : Block Node) (strict : Bool) (line : UInt32) :
    match allocate parameters body strict line with
    | .ok slots => redeclarations strict parameters body line = [] ∧
        (∀ name : String, name ∈ slots.names ↔ name ∈ scopeOf parameters body) ∧
        parameters.length + 1 ≤ slots.size
    | .error fault => (redeclarations strict parameters body line).head? = some fault := by
  have hhead := head?_redeclarations parameters body strict line
  cases hslots : allocate parameters body strict line with
  | error fault =>
    rw [hslots] at hhead
    exact hhead
  | ok slots =>
    rw [hslots] at hhead
    obtain ⟨added, hnames, -, hmem⟩ := exists_names_of_allocate hslots
    refine ⟨List.head?_eq_none_iff.mp hhead, fun name ↦ ?_, ?_⟩
    · rw [hmem, body.declarationsOf_nodes, scopeOf, List.mem_append]
    · rw [size, hnames, List.length_append, List.length_cons]
      exact Nat.le_add_right _ _

end SlotTable

end ScriptMachine
