import ScriptMachine.Proofs.SessionRuns
import ScriptMachine.Proofs.Twins

/-!
# Machines side by side

Two machines that have compiled the same programs, and one of them others as well, have given away different
identities. `Matching.likeness` says which of their functions and classes stand for each other, and `Matching.Fits`
that a matching belongs to two machines: it is one-to-one, and functions with matched identities are twins. Then
functions that stand for each other do the same (`Matching.Fits.sound`). A matching goes on to fit when either machine
compiles something else (`Matching.Fits.grow`), and an extension of it when both compile the same
(`Matching.Fits.extend`).
-/

set_option autoImplicit false
set_option relaxedAutoImplicit false

namespace ScriptMachine

/-- Two functions are native with the same name and operation, or compiled with the same name and last line. -/
inductive Function.Resembles : Function → Function → Prop where
  | native (identity identity' : Nat) (name : String) (operation : Native) :
      Resembles (.native identity name operation) (.native identity' name operation)
  | compiled {routine routine' : Routine} (hname : routine.name = routine'.name)
      (hline : routine.unit.lastLine? = routine'.unit.lastLine?) : Resembles (.compiled routine) (.compiled routine')

namespace Matching

/-! ### Larger matchings -/

/-- A matching and a number of identities more, matched one by one from two first ones on. -/
def extend (matching : Matching) (first first' count : Nat) : Matching :=
  fun identity identity' ↦ matching identity identity' ∨
    ∃ position : Nat, position < count ∧ identity = first + position ∧ identity' = first' + position

variable {matching : Matching} {next next' count : Nat}

theorem along_extend : (matching.extend next next' count).Along next next' count :=
  fun position hless ↦ Or.inr ⟨position, hless, rfl, rfl⟩

/-- No identity is matched twice when the identities that were matched before come before the new ones. -/
theorem OneToOne.extend (hone : matching.OneToOne)
    (hbound : ∀ {identity identity' : Nat}, matching identity identity' → identity < next ∧ identity' < next') :
    (matching.extend next next' count).OneToOne := by
  intro first second other another
  rintro (hfirst | ⟨position, _, rfl, rfl⟩) (hother | ⟨place, _, rfl, rfl⟩)
  · exact hone _ _ _ _ hfirst hother
  · have hless := hbound hfirst
    omega
  · have hless := hbound hother
    omega
  · omega

/-! ### Functions and classes with matched identities -/

/-- Functions of two registries stand for each other when they resemble each other and their identities are matched,
and so do classes with the same fields. -/
def likeness (matching : Matching) (registry registry' : Registry) : Likeness where
  functions function function' := matching function.identity function'.identity ∧
    registry.functions function.identity = some function ∧
    registry'.functions function'.identity = some function' ∧ function.Resembles function'
  layouts layout layout' := matching layout.identity layout'.identity ∧ layout.fields = layout'.fields

/-- What stands for each other goes on to when there are more functions, classes and matched identities. -/
theorem within_likeness {larger : Matching} {registry registry' later later' : Registry}
    (hlarger : ∀ identity identity' : Nat, matching identity identity' → larger identity identity')
    (hextends : registry.Extends later) (hextends' : registry'.Extends later') :
    (matching.likeness registry registry').Within (larger.likeness later later') where
  functions := fun ⟨hmatched, hknown, hknown', hresembles⟩ ↦
    ⟨hlarger _ _ hmatched, hextends.functions _ _ hknown, hextends'.functions _ _ hknown', hresembles⟩
  layouts := fun ⟨hmatched, hfields⟩ ↦ ⟨hlarger _ _ hmatched, hfields⟩

/-- Identities that are matched one-to-one tell functions and classes apart. -/
theorem OneToOne.faithful (hone : matching.OneToOne) (registry registry' : Registry) :
    (matching.likeness registry registry').Faithful where
  functionName := fun ⟨_, _, _, hresembles⟩ ↦ by
    cases hresembles with
    | native => rfl
    | compiled hname => exact hname
  functionIdentity hfunctions hothers := hone _ _ _ _ hfunctions.1 hothers.1
  layoutFields hlayouts := hlayouts.2
  layoutIdentity hlayouts hothers := hone _ _ _ _ hlayouts.1 hothers.1

/-! ### Matchings that fit -/

/-- A matching fits two registries with the functions that have been compiled: no identity is matched with two others
or is still to come, and compiled functions with matched identities are twins. -/
structure Fits (matching : Matching) (registry registry' : Registry) (closures closures' : List Closure)
    (next next' : Nat) : Prop where
  oneToOne : matching.OneToOne
  bound : ∀ {identity identity' : Nat}, matching identity identity' → identity < next ∧ identity' < next'
  twins : ∀ {identity identity' : Nat} {routine routine' : Routine}, matching identity identity' →
    registry.functions identity = some (.compiled routine) →
    registry'.functions identity' = some (.compiled routine') → ∀ {closure closure' : Closure},
    closures.find? (fun other ↦ other.identity == identity) = some closure →
    closures'.find? (fun other ↦ other.identity == identity') = some closure' → closure.Twin matching closure'

namespace Fits

section Growth

variable {registry registry' later later' : Registry} {closures closures' added added' : List Closure}
  {more more' : Nat}

/-- Compiled functions whose identities were matched before stay twins when others are compiled. -/
theorem twins_of_grows (hfits : matching.Fits registry registry' closures closures' next next')
    (hgrows : registry.GrowsBy later added) (hgrows' : registry'.GrowsBy later' added')
    (hnumbered : Closure.Numbered next more added) (hnumbered' : Closure.Numbered next' more' added')
    {identity identity' : Nat} {routine routine' : Routine} (hmatched : matching identity identity')
    (hroutine : later.functions identity = some (.compiled routine))
    (hroutine' : later'.functions identity' = some (.compiled routine')) {closure closure' : Closure}
    (hfound : (added ++ closures).find? (fun other ↦ other.identity == identity) = some closure)
    (hfound' : (added' ++ closures').find? (fun other ↦ other.identity == identity') = some closure') :
    closure.Twin matching closure' := by
  obtain ⟨hless, hless'⟩ := hfits.bound hmatched
  rw [List.find?_append, hnumbered.find?_eq_none hless, Option.none_or] at hfound
  rw [List.find?_append, hnumbered'.find?_eq_none hless', Option.none_or] at hfound'
  have hold := (hgrows.compiled identity routine hroutine).resolve_right fun ⟨other, hother, hsame⟩ ↦
    absurd hless (Nat.not_lt_of_le (hsame ▸ (hnumbered.bounds other hother).1))
  have hold' := (hgrows'.compiled identity' routine' hroutine').resolve_right fun ⟨other, hother, hsame⟩ ↦
    absurd hless' (Nat.not_lt_of_le (hsame ▸ (hnumbered'.bounds other hother).1))
  exact hfits.twins hmatched hold hold' hfound hfound'

/-- A matching goes on to fit, whatever is compiled on either side. -/
theorem grow (hfits : matching.Fits registry registry' closures closures' next next')
    (hgrows : registry.GrowsBy later added) (hgrows' : registry'.GrowsBy later' added')
    (hnumbered : Closure.Numbered next more added) (hnumbered' : Closure.Numbered next' more' added')
    {last last' : Nat} (hlast : next ≤ last) (hlast' : next' ≤ last') :
    matching.Fits later later' (added ++ closures) (added' ++ closures') last last' where
  oneToOne := hfits.oneToOne
  bound hmatched := (hfits.bound hmatched).imp (Nat.lt_of_lt_of_le · hlast) (Nat.lt_of_lt_of_le · hlast')
  twins := hfits.twins_of_grows hgrows hgrows' hnumbered hnumbered'

/-- When twins are compiled on both sides, a matching fits that has their identities as well. -/
theorem extend (hfits : matching.Fits registry registry' closures closures' next next')
    (hgrows : registry.GrowsBy later added) (hgrows' : registry'.GrowsBy later' added')
    (hnumbered : Closure.Numbered next count added) (hnumbered' : Closure.Numbered next' count added')
    (htwins : List.Forall₂ (Closure.Twin (matching.extend next next' count)) added added')
    (hknown : ∀ (identity : Nat) (callee : Function), registry.functions identity = some callee → identity < next)
    (hknown' : ∀ (identity : Nat) (callee : Function),
      registry'.functions identity = some callee → identity < next') :
    (matching.extend next next' count).Fits later later' (added ++ closures) (added' ++ closures') (next + count)
      (next' + count) := by
  have hone : (matching.extend next next' count).OneToOne := hfits.oneToOne.extend hfits.bound
  refine ⟨hone, ?_, ?_⟩
  · rintro identity identity' (hmatched | ⟨position, hless, rfl, rfl⟩)
    · have hbound := hfits.bound hmatched
      omega
    · omega
  · intro identity identity' routine routine' hmatched hroutine hroutine' closure closure' hfound hfound'
    rcases hmatched with hmatched | hnew
    · exact (hfits.twins_of_grows hgrows hgrows' hnumbered hnumbered' hmatched hroutine hroutine' hfound hfound').mono
        fun _ _ hold ↦ Or.inl hold
    -- functions with new identities are among those that have been compiled last
    · have hrelated := find?_twin hone htwins (Or.inr hnew : matching.extend next next' count identity identity')
      obtain ⟨position, -, rfl, rfl⟩ := hnew
      obtain ⟨other, hother, hidentity⟩ := (hgrows.compiled _ routine hroutine).resolve_left
        fun hold ↦ absurd (hknown _ _ hold) (Nat.not_lt_of_le (Nat.le_add_right _ _))
      obtain ⟨other', hother', hidentity'⟩ := (hgrows'.compiled _ routine' hroutine').resolve_left
        fun hold ↦ absurd (hknown' _ _ hold) (Nat.not_lt_of_le (Nat.le_add_right _ _))
      have hadded := hnumbered.find?_eq hother hidentity
      have hadded' := hnumbered'.find?_eq hother' hidentity'
      rw [List.find?_append, hadded, Option.some_or] at hfound
      rw [List.find?_append, hadded', Option.some_or] at hfound'
      rw [hadded, hadded', hfound, hfound'] at hrelated
      cases hrelated with
      | some htwin => exact htwin

end Growth

/-! ### Machines with a matching that fits -/

variable {machine machine' : Machine} {known known' : List Value} {closures closures' : List Closure}
  {registry registry' : Registry} {world world' : World}

/-- Compiled functions with matched identities are the code of twins. -/
theorem exists_twins
    (hfits : matching.Fits registry registry' closures closures' machine.nextIdentity machine'.nextIdentity)
    (hconsistent : machine.Consistent known closures registry world)
    (hconsistent' : machine'.Consistent known' closures' registry' world')
    (hsize : machine.constants.size ≤ Word.indexLimit) (hsize' : machine'.constants.size ≤ Word.indexLimit)
    {identity identity' : Nat} {routine routine' : Routine} (hmatched : matching identity identity')
    (hroutine : registry.functions identity = some (.compiled routine))
    (hroutine' : registry'.functions identity' = some (.compiled routine')) :
    ∃ closure closure' : Closure, closure.Twin matching closure' ∧ closure.Compiled machine.constants routine ∧
      closure'.Compiled machine'.constants routine' := by
  obtain ⟨closure, hfound, hcompiled⟩ := hconsistent.compiled identity routine hroutine
  obtain ⟨closure', hfound', hcompiled'⟩ := hconsistent'.compiled identity' routine' hroutine'
  exact ⟨closure, closure', hfits.twins hmatched hroutine hroutine' hfound hfound', hcompiled _ (.refl _) hsize,
    hcompiled' _ (.refl _) hsize'⟩

/-- Compiled functions with matched identities and the same last line stand for each other. -/
theorem functions_of_matched
    (hfits : matching.Fits registry registry' closures closures' machine.nextIdentity machine'.nextIdentity)
    (hconsistent : machine.Consistent known closures registry world)
    (hconsistent' : machine'.Consistent known' closures' registry' world')
    (hsize : machine.constants.size ≤ Word.indexLimit) (hsize' : machine'.constants.size ≤ Word.indexLimit)
    {routine routine' : Routine} (hroutine : registry.functions routine.identity = some (.compiled routine))
    (hroutine' : registry'.functions routine'.identity = some (.compiled routine'))
    (hmatched : matching routine.identity routine'.identity)
    (hline : routine.unit.lastLine? = routine'.unit.lastLine?) :
    (matching.likeness registry registry').functions (.compiled routine) (.compiled routine') := by
  obtain ⟨closure, closure', htwin, hcompiled, hcompiled'⟩ := hfits.exists_twins hconsistent hconsistent' hsize hsize'
    hmatched hroutine hroutine'
  exact ⟨hmatched, hroutine, hroutine', .compiled (by rw [hcompiled.name, hcompiled'.name, htwin.name]) hline⟩

/-- Functions and classes with matched identities stand for each other among the constants of two machines. -/
theorem covers
    (hfits : matching.Fits registry registry' closures closures' machine.nextIdentity machine'.nextIdentity)
    (hconsistent : machine.Consistent known closures registry world)
    (hconsistent' : machine'.Consistent known' closures' registry' world')
    (hsize : machine.constants.size ≤ Word.indexLimit) (hsize' : machine'.constants.size ≤ Word.indexLimit) :
    (matching.likeness registry registry').Covers matching machine.constants machine'.constants where
  undefined := hconsistent.workspace.constants.undefined
  undefined' := hconsistent'.workspace.constants.undefined
  functions hmem hmem' hmatched hline := hfits.functions_of_matched hconsistent hconsistent' hsize hsize'
    (hconsistent.workspace.constants.valid _ hmem) (hconsistent'.workspace.constants.valid _ hmem') hmatched hline
  layouts _ hmatched := ⟨hmatched, rfl⟩

/-- Functions of two machines that stand for each other do the same. -/
theorem sound
    (hfits : matching.Fits registry registry' closures closures' machine.nextIdentity machine'.nextIdentity)
    (hconsistent : machine.Consistent known closures registry world)
    (hconsistent' : machine'.Consistent known' closures' registry' world')
    (hsize : machine.constants.size ≤ Word.indexLimit) (hsize' : machine'.constants.size ≤ Word.indexLimit)
    (hcode : ∀ (identity : Nat) (routine : Routine), registry.functions identity = some (.compiled routine) →
      routine.unit.code.size < 4294967296) :
    (matching.likeness registry registry').Sound machine.constants machine'.constants := by
  have hcovers := hfits.covers hconsistent hconsistent' hsize hsize'
  refine ⟨hfits.oneToOne.faithful registry registry', ?_, ?_⟩
  · rintro identity name operation function ⟨-, -, -, hresembles⟩
    cases hresembles
    exact ⟨_, _, rfl⟩
  · rintro routine function ⟨hmatched, hroutine, hroutine', hresembles⟩
    cases hresembles with
    | compiled hname hline =>
      obtain ⟨closure, closure', htwin, hcompiled, hcompiled'⟩ := hfits.exists_twins hconsistent hconsistent' hsize
        hsize' hmatched hroutine hroutine'
      exact ⟨_, rfl, htwin.matches_of hcovers hcompiled hcompiled' hline (hcode _ _ hroutine)⟩

end Fits

end Matching

end ScriptMachine
