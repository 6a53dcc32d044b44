import ScriptMachine.Proofs.Lowered
import ScriptMachine.Proofs.Validity

/-!
# What a compilation leaves behind

A compilation only adds to its workspace: constants, identities, and functions that belong to function
literals of the program (`Workspace.Grows`), and it does so also when it refuses the program in the end.
`Lowering.Meets` says this of a part of a compilation, together with what holds of its answer if it has one,
and goes through sequences of parts (`Lowering.Meets.bind`).
-/

set_option autoImplicit false
set_option relaxedAutoImplicit false

namespace ScriptMachine

/-- The constants of a workspace are valid, and no identity has been given away that is still to come. -/
structure Workspace.Valid (workspace : Workspace) (registry : Registry) : Prop where
  constants : workspace.constants.Valid registry
  functions : ∀ (identity : Nat) (callee : Function),
    registry.functions identity = some callee → identity < workspace.nextIdentity
  layouts : ∀ (identity : Nat) (layout : Class),
    registry.layouts identity = some layout → identity < workspace.nextIdentity

/-- A workspace has grown by the functions of some function literals: each new compiled function is a
constant and, as long as all positions fit into a word, the code of one of the literals. -/
structure Workspace.Grows (before after : Workspace) (registry later : Registry)
    (closures : List Closure) : Prop where
  constants : before.constants.Extends after.constants
  next_le : before.nextIdentity ≤ after.nextIdentity
  registered : registry.Extends later
  valid : after.Valid later
  compiled : ∀ (identity : Nat) (routine : Routine),
    later.functions identity = some (.compiled routine) →
      registry.functions identity = some (.compiled routine) ∨
        .function (.compiled routine) ∈ after.constants.entries ∧
          ∃ closure ∈ closures, closure.identity = identity ∧
            ∀ final : ConstantTable, after.constants.Extends final →
              final.size ≤ Word.indexLimit → closure.Compiled final routine

namespace Workspace.Grows

variable {first second third : Workspace} {registry later latest : Registry}
  {closures more : List Closure}

theorem refl (hvalid : first.Valid registry) : first.Grows first registry registry closures :=
  ⟨ConstantTable.Extends.refl _, Nat.le_refl _, Registry.Extends.refl _, hvalid,
    fun _ _ hroutine ↦ Or.inl hroutine⟩

/-- Growth by some literals and then by others is growth by both. -/
theorem trans (hfirst : first.Grows second registry later closures)
    (hsecond : second.Grows third later latest more) :
    first.Grows third registry latest (closures ++ more) := by
  refine ⟨hfirst.constants.trans hsecond.constants, Nat.le_trans hfirst.next_le hsecond.next_le,
    hfirst.registered.trans hsecond.registered, hsecond.valid, fun identity routine hroutine ↦ ?_⟩
  rcases hsecond.compiled identity routine hroutine with hold | ⟨hmem, closure, hclosure, hnew⟩
  · rcases hfirst.compiled identity routine hold with hold | ⟨hmem, closure, hclosure, hsame, hcode⟩
    · exact Or.inl hold
    · exact Or.inr ⟨hsecond.constants.mem hmem, closure, List.mem_append_left _ hclosure, hsame,
        fun final hextends hsize ↦ hcode final (hsecond.constants.trans hextends) hsize⟩
  · exact Or.inr ⟨hmem, closure, List.mem_append_right _ hclosure, hnew⟩

/-- Growth by some literals is growth by more of them. -/
theorem weaken (hgrows : first.Grows second registry later closures) (hmore : closures ⊆ more) :
    first.Grows second registry later more := by
  refine ⟨hgrows.constants, hgrows.next_le, hgrows.registered, hgrows.valid,
    fun identity routine hroutine ↦ ?_⟩
  rcases hgrows.compiled identity routine hroutine with hold | ⟨hmem, closure, hclosure, hnew⟩
  · exact Or.inl hold
  · exact Or.inr ⟨hmem, closure, hmore hclosure, hnew⟩

end Workspace.Grows

namespace Lowering

/-- A part of a compilation lets its workspace grow by some literals, and its answer is right. -/
def Meets {α : Type} (part : Lowering α) (workspace : Workspace) (registry : Registry)
    (closures : List Closure) (right : α → Workspace → Registry → Prop) : Prop :=
  match part workspace with
  | .ok answer after => ∃ later : Registry, workspace.Grows after registry later closures ∧
      right answer after later
  | .error _ after => ∃ later : Registry, workspace.Grows after registry later closures

namespace Meets

variable {α β : Type} {workspace : Workspace} {registry : Registry} {closures more : List Closure}

theorem pure {answer : α} {right : α → Workspace → Registry → Prop} (hvalid : workspace.Valid registry)
    (hright : right answer workspace registry) :
    Meets (Pure.pure answer) workspace registry closures right :=
  ⟨registry, Workspace.Grows.refl hvalid, hright⟩

theorem throw {error : CompileError} {right : α → Workspace → Registry → Prop}
    (hvalid : workspace.Valid registry) :
    Meets (throwThe CompileError error) workspace registry closures right :=
  ⟨registry, Workspace.Grows.refl hvalid⟩

/-- A part and what follows it let the workspace grow by the literals of both. -/
theorem bind {part : Lowering α} {rest : α → Lowering β} {right : α → Workspace → Registry → Prop}
    {rightRest : β → Workspace → Registry → Prop} (hpart : Meets part workspace registry closures right)
    (hrest : ∀ (answer : α) (after : Workspace) (later : Registry),
      workspace.Grows after registry later closures → right answer after later →
      Meets (rest answer) after later more rightRest) :
    Meets (part >>= rest) workspace registry (closures ++ more) rightRest := by
  unfold Meets at hpart ⊢
  simp only [Bind.bind, EStateM.bind]
  cases hfirst : part workspace with
  | ok answer after =>
    rw [hfirst] at hpart
    obtain ⟨later, hgrows, hright⟩ := hpart
    have hsecond := hrest answer after later hgrows hright
    unfold Meets at hsecond
    dsimp only
    cases hresult : rest answer after with
    | ok final last =>
      rw [hresult] at hsecond
      obtain ⟨latest, hmore, hfinal⟩ := hsecond
      exact ⟨latest, hgrows.trans hmore, hfinal⟩
    | error fault last =>
      rw [hresult] at hsecond
      obtain ⟨latest, hmore⟩ := hsecond
      exact ⟨latest, hgrows.trans hmore⟩
  | error fault after =>
    rw [hfirst] at hpart
    obtain ⟨later, hgrows⟩ := hpart
    exact ⟨later, hgrows.weaken (List.subset_append_left _ _)⟩

/-- A part meets what is weaker. -/
theorem weaken {part : Lowering α} {right weaker : α → Workspace → Registry → Prop}
    (hpart : Meets part workspace registry closures right) (hmore : closures ⊆ more)
    (hweaker : ∀ (answer : α) (after : Workspace) (later : Registry), right answer after later →
      weaker answer after later) : Meets part workspace registry more weaker := by
  unfold Meets at hpart ⊢
  cases hresult : part workspace with
  | ok answer after =>
    rw [hresult] at hpart
    obtain ⟨later, hgrows, hright⟩ := hpart
    exact ⟨later, hgrows.weaken hmore, hweaker answer after later hright⟩
  | error fault after =>
    rw [hresult] at hpart
    obtain ⟨later, hgrows⟩ := hpart
    exact ⟨later, hgrows.weaken hmore⟩

end Meets

/-! ### Constants and identities -/

/-- A value gets a word that refers to it. -/
def Refers (value : Value) (workspace : Workspace) (word : Word) (after : Workspace) (_ : Registry) : Prop :=
  after.nextIdentity = workspace.nextIdentity ∧ ∀ final : ConstantTable,
    after.constants.Extends final → final.size ≤ Word.indexLimit → final.constant? word = some value

/-- A valid value is made a constant. -/
theorem meets_constant {workspace : Workspace} {registry : Registry} (hvalid : workspace.Valid registry)
    {value : Value} (hinline : value.inlineWord? = none) (hvalue : value.Valid registry []) :
    Meets (constant value) workspace registry [] (Refers value workspace) := by
  refine ⟨registry, ⟨ConstantTable.box_extends _ _, Nat.le_refl _, Registry.Extends.refl _,
    ⟨hvalid.constants.box hinline hvalue, hvalid.functions, hvalid.layouts⟩,
    fun _ _ hroutine ↦ Or.inl hroutine⟩, rfl, fun final hextends hsize ↦ ?_⟩
  have hsmall := Nat.le_trans hextends.size_le hsize
  exact ConstantTable.constant?_mono hextends (hvalid.constants.constant?_box hvalue hsmall)

/-- The registry with a function whose identity is new. -/
def withFunction (registry : Registry) (callee : Function) : Registry :=
  { registry with
    functions := fun identity ↦
      if identity = callee.identity then some callee else registry.functions identity }

/-- The registry with a class whose identity is new. -/
def withLayout (registry : Registry) (layout : Class) : Registry :=
  { registry with
    layouts := fun identity ↦
      if identity = layout.identity then some layout else registry.layouts identity }

theorem extends_withFunction {registry : Registry} {callee : Function}
    (hnew : registry.functions callee.identity = none) : registry.Extends (withFunction registry callee) := by
  refine ⟨fun identity found hfound ↦ ?_, fun _ _ hfound ↦ hfound⟩
  unfold withFunction
  dsimp only
  rw [if_neg]
  · exact hfound
  · rintro rfl
    rw [hnew] at hfound
    cases hfound

theorem extends_withLayout {registry : Registry} {layout : Class}
    (hnew : registry.layouts layout.identity = none) : registry.Extends (withLayout registry layout) := by
  refine ⟨fun _ _ hfound ↦ hfound, fun identity found hfound ↦ ?_⟩
  unfold withLayout
  dsimp only
  rw [if_neg]
  · exact hfound
  · rintro rfl
    rw [hnew] at hfound
    cases hfound

end Lowering

end ScriptMachine
