import ScriptMachine.Engine
import ScriptMachine.Proofs.Definitions

/-!
# Functions among the added constants

A compilation that comes to an end appends constants to those that were there. `Workspace.Appends` says which compiled
functions are among them: the code of some definitions, each once and in their order. `Lowering.Appends` says this of a
part of a compilation, and `appends_compileScript` of a whole script, whose function literals are appended in the order
in which they are finished. The workspace has to be fresh, since a function with an identity that is not new would not
be appended.
-/

set_option autoImplicit false
set_option relaxedAutoImplicit false

namespace ScriptMachine

/-! ### Workspaces -/

/-- The compiled functions among values that are joined. -/
theorem compiledAmong_append (first second : List Value) :
    compiledAmong (first ++ second) = compiledAmong first ++ compiledAmong second :=
  List.filterMap_append

/-- Compiled functions among values are such values. -/
theorem mem_of_mem_compiledAmong {values : List Value} {routine : Routine} (hmem : routine ∈ compiledAmong values) :
    .function (.compiled routine) ∈ values := by
  obtain ⟨value, hvalue, hfound⟩ := List.mem_filterMap.mp hmem
  cases value
  case function callee =>
    cases callee <;> cases hfound
    exact hvalue
  all_goals cases hfound

/-- A value that is no compiled function is not among them. -/
theorem compiledAmong_singleton {value : Value} (hother : ∀ routine : Routine, value ≠ .function (.compiled routine)) :
    compiledAmong [value] = [] := by
  refine List.eq_nil_iff_forall_not_mem.mpr fun routine hmem ↦ ?_
  exact hother routine (List.mem_singleton.mp (mem_of_mem_compiledAmong hmem)).symm

/-- A workspace has given away some identities, and of its compiled functions the code of some definitions is new, in
their order. -/
structure Workspace.Appends (before after : Workspace) (definitions : List Definition) (count : Nat) : Prop where
  next : after.nextIdentity = before.nextIdentity + count
  fresh : after.Fresh
  entries : ∃ added : List Value, after.constants.entries.toList = before.constants.entries.toList ++ added ∧
    List.Forall₂ Definition.Describes definitions (compiledAmong added)

namespace Workspace.Appends

variable {before between after : Workspace} {definitions more : List Definition} {count further : Nat}

theorem refl (hfresh : before.Fresh) : before.Appends before [] 0 :=
  ⟨rfl, hfresh, [], (List.append_nil _).symm, .nil⟩

theorem trans (hfirst : before.Appends between definitions count) (hsecond : between.Appends after more further) :
    before.Appends after (definitions ++ more) (count + further) := by
  obtain ⟨added, hadded, hdescribes⟩ := hfirst.entries
  obtain ⟨last, hlast, hothers⟩ := hsecond.entries
  refine ⟨by rw [hsecond.next, hfirst.next, Nat.add_assoc], hsecond.fresh, added ++ last, ?_, ?_⟩
  · rw [hlast, hadded, List.append_assoc]
  · rw [compiledAmong_append]
    exact List.rel_append hdescribes hothers

/-- An identity is given away. -/
theorem giveAway (hfresh : before.Fresh) : before.Appends ⟨before.constants, before.nextIdentity + 1⟩ [] 1 := by
  refine ⟨rfl, ⟨hfresh.undefined, fun entry hentry identity hidentity ↦ ?_⟩, [], (List.append_nil _).symm, .nil⟩
  exact Nat.lt_succ_of_lt (hfresh.identities entry hentry identity hidentity)

/-- A value that is no function, and whose identity has been given away if it has one, is made a constant. -/
theorem box (hfresh : before.Fresh) {value : Value}
    (hless : ∀ identity ∈ value.identity?, identity < before.nextIdentity) (hnone : compiledAmong [value] = []) :
    before.Appends ⟨(before.constants.box value).2, before.nextIdentity⟩ [] 0 := by
  refine ⟨rfl, hfresh.box (Nat.le_refl _) hless, ?_⟩
  have hregistered : (before.constants.box value).2 = (before.constants.register value).2 := rfl
  rw [hregistered]
  rcases before.constants.register_cases value with ⟨_, hsame, -⟩ | ⟨-, hpushed⟩
  · rw [hsame]
    exact ⟨[], (List.append_nil _).symm, .nil⟩
  · rw [hpushed]
    exact ⟨[value], Array.toList_push, hnone ▸ .nil⟩

/-- A function whose identity is the next one is made a constant. -/
theorem boxFunction (hfresh : before.Fresh) {routine : Routine} {definition : Definition}
    (hdescribes : definition.Describes routine) (hidentity : routine.identity = before.nextIdentity) :
    before.Appends ⟨(before.constants.box (.function (.compiled routine))).2, before.nextIdentity + 1⟩ [definition]
      1 := by
  refine ⟨rfl, hfresh.box (Nat.le_succ _) ?_, [.function (.compiled routine)], ?_, .cons hdescribes .nil⟩
  · rintro _ ⟨⟩
    exact Nat.lt_succ_of_le (Nat.le_of_eq hidentity)
  · have hnew : ∀ entry ∈ before.constants.entries,
        entry.constantKey? ≠ (Value.function (.compiled routine)).constantKey? := by
      intro entry hentry hkey
      rcases Value.eq_or_identity?_eq hkey rfl with rfl | ⟨identity, hold, hsame⟩
      · exact absurd hidentity (Nat.ne_of_lt (hfresh.identities _ hentry _ rfl))
      · obtain rfl := Option.some.inj hsame
        exact absurd hidentity (Nat.ne_of_lt (hfresh.identities _ hentry _ hold))
    rw [(ConstantTable.box_new hnew).2]
    exact Array.toList_push

end Workspace.Appends

namespace Lowering

/-! ### Parts of a compilation -/

/-- When a part of a compilation that starts with an identity comes to an end, it has used up a number of identities and
appended the code of some definitions, and its answer is right. -/
def Appends {α : Type} (part : Lowering α) (first : Nat) (definitions : List Definition) (count : Nat)
    (right : α → Prop) : Prop :=
  ∀ workspace : Workspace, workspace.Fresh → workspace.nextIdentity = first → ∀ (answer : α) (after : Workspace),
    part workspace = .ok answer after → workspace.Appends after definitions count ∧ right answer

/-- A part of a compilation that comes to an end appends the functions that it makes constants. -/
theorem Builds.appends {α : Type} {part : Lowering α} {first count : Nat} {definitions : List Definition}
    {right : α → Prop} (hbuilds : Builds part first definitions count right) :
    Appends part first definitions count right := by
  induction hbuilds with
  | pure hright =>
    rintro workspace hfresh - _ _ ⟨⟩
    exact ⟨.refl hfresh, hright⟩
  | throw => rintro workspace - - _ _ ⟨⟩
  | @bind _ _ _ _ _ _ _ part rest _ _ _ _ hpart hrest =>
    rintro workspace hfresh rfl answer after hresult
    simp only [Bind.bind, EStateM.bind] at hresult
    cases hfirst : part workspace with
    | error error between =>
      rw [hfirst] at hresult
      cases hresult
    | ok found between =>
      rw [hfirst] at hresult
      obtain ⟨happends, hright⟩ := hpart workspace hfresh rfl found between hfirst
      obtain ⟨hlast, hanswer⟩ := hrest found hright between happends.fresh happends.next answer after hresult
      exact ⟨happends.trans hlast, hanswer⟩
  | constant hless hother =>
    rintro workspace hfresh rfl _ _ ⟨⟩
    exact ⟨.box hfresh hless (compiledAmong_singleton hother), trivial⟩
  | freshIdentity =>
    rintro workspace hfresh rfl _ _ ⟨⟩
    exact ⟨.giveAway hfresh, rfl⟩
  | function hdescribes hidentity =>
    rintro workspace hfresh rfl _ _ ⟨⟩
    exact ⟨.boxFunction hfresh hdescribes hidentity, trivial⟩

end Lowering

/-- The compiler appends the function literals of a script in the order in which they are finished, and answers with the
code of its body. -/
theorem appends_compileScript (strict : Bool) (script : Script) (first : Nat) :
    Lowering.Appends (compileScript strict script) first (definitionsOf first script.body.nodes) script.sites
      (Definition.ofBody first "main" [] script.body script.body.line).Describes :=
  (builds_compileScript strict script first).appends

end ScriptMachine
