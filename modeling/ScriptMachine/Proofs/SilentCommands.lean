import Mathlib.Data.List.Sort
import ScriptMachine.Proofs.PairedEngines
import ScriptMachine.Proofs.Termination

/-!
# Commands that run no code are invisible

A session is padded when silent commands are put between its own ones, anywhere and any number of times
(`Session.Padded`). The engines of the two sessions remain paired, since all that a silent command leaves behind are
constants and identities that nothing else refers to. So the commands that both sessions have in common are answered
alike, up to a relation that tells functions and classes apart as they are, and the two engines look alike
(`Session.silent_commands_invisible`).
-/

set_option autoImplicit false
set_option relaxedAutoImplicit false

namespace ScriptMachine

/-! ### What a host sees of paired engines -/

/-- Globals that bind the same names list the same names. -/
theorem Globals.names_eq {globals globals' : Globals}
    (hbound : ∀ name : String, globals.contains name = globals'.contains name) : globals.names = globals'.names := by
  have hperm : globals.bindings.keys.Perm globals'.bindings.keys := by
    refine (List.perm_ext_iff_of_nodup Std.HashMap.nodup_keys Std.HashMap.nodup_keys).mpr fun name ↦ ?_
    rw [Std.HashMap.mem_keys, Std.HashMap.mem_keys, ← Std.HashMap.contains_iff_mem, ← Std.HashMap.contains_iff_mem]
    exact Bool.eq_iff_iff.mp (hbound name)
  have hsorted : ∀ names : List String,
      (names.mergeSort fun left right ↦ decide (left ≤ right)).Pairwise fun left right ↦ decide (left ≤ right) = true :=
    List.pairwise_mergeSort (fun first second third hfirst hsecond ↦
        decide_eq_true (String.le_trans (of_decide_eq_true hfirst) (of_decide_eq_true hsecond)))
      (fun left right ↦ by simpa using String.le_total left right)
  refine List.Perm.eq_of_pairwise (fun left right _ _ hleft hright ↦ ?_) (hsorted _) (hsorted _)
    ((List.mergeSort_perm _ _).trans (hperm.trans (List.mergeSort_perm _ _).symm))
  exact String.le_antisymm (of_decide_eq_true hleft) (of_decide_eq_true hright)

/-- A host sees the same of two machines, up to functions and classes that stand for each other: alike globals, a heap
that is used as far, and the same printed text. -/
structure Machine.LooksAlike (likeness : Likeness) (machine machine' : Machine) : Prop where
  globals : ∀ name : String, (machine.globals.lookup name).Like likeness (machine'.globals.lookup name)
  names : machine.globals.names = machine'.globals.names
  used : machine.heap.used = machine'.heap.used
  printed : machine.sink.written = machine'.sink.written

/-- Paired machines look alike. -/
theorem Machine.Paired.looksAlike {matching : Matching} {transcript : Transcript} {machine machine' : Machine}
    {background background' : Background}
    (hpaired : Machine.Paired matching transcript machine machine' background background') :
    machine.LooksAlike (matching.between background background') machine' := by
  have hshows := hpaired.left.realizes.shows
  have hshows' := hpaired.right.realizes.shows
  refine ⟨fun name ↦ ?_, ?_, ?_, ?_⟩
  · rw [hshows.globals, hshows'.globals]
    exact hpaired.world.globals name
  · rw [hshows.globals, hshows'.globals]
    exact Globals.names_eq hpaired.world.bound
  · rw [hshows.heap.used_eq, hshows'.heap.used_eq]
    exact Store.totalSize_eq_of_like hpaired.world.records
  · rw [hshows.sink, hshows'.sink]
    exact hpaired.world.sink.written

/-! ### Fresh engines -/

/-- A function resembles itself. -/
theorem Function.Resembles.refl (function : Function) : function.Resembles function := by
  cases function with
  | native identity name operation => exact .native _ _ _ _
  | compiled routine => exact .compiled rfl rfl

/-- A machine that has compiled nothing and knows no function of the host is paired with itself. -/
theorem Machine.Consistent.paired {machine : Machine} {registry : Registry} {world : World}
    (hconsistent : machine.Consistent [] [] registry world) (hlisted : registry.Listed [])
    (hhosts : machine.hosts = #[]) :
    Machine.Paired (fun identity identity' ↦ identity = identity' ∧ identity < machine.nextIdentity) [] machine machine
      ⟨[], [], registry, world⟩ ⟨[], [], registry, world⟩ := by
  have hempty : world.hosts.toList = [] := by rw [← hconsistent.realizes.shows.hosts, hhosts]
  have hwithin : registry.equality.Within (Matching.likeness
      (fun identity identity' ↦ identity = identity' ∧ identity < machine.nextIdentity) registry registry) := by
    refine ⟨?_, ?_⟩
    · rintro function _ ⟨rfl, hknown⟩
      exact ⟨⟨rfl, hconsistent.workspace.functions _ _ hknown⟩, hknown, hknown, .refl _⟩
    · rintro layout _ ⟨rfl, hknown⟩
      exact ⟨⟨rfl, hconsistent.workspace.layouts _ _ hknown⟩, rfl⟩
  have hself : world.Like registry.equality .none world :=
    hconsistent.world.like_loosened (Nat.le_refl _) (fun _ ↦ rfl)
      ⟨rfl, fun bytes hbytes ↦ ⟨bytes, hbytes, Nat.le_refl _⟩, fun _ ↦ rfl⟩
  refine ⟨hconsistent, hconsistent, rfl, ⟨?_, ?_, ?_⟩, hself.mono hwithin ?_, ?_, List.forall_mem_nil _⟩
  · rintro first _ other _ ⟨rfl, -⟩ ⟨rfl, -⟩
    exact Iff.rfl
  · rintro identity _ ⟨rfl, hless⟩
    exact ⟨hless, hless⟩
  · intro identity identity' routine routine' _ hroutine
    exact absurd (hlisted _ _ hroutine) List.not_mem_nil
  · rw [hempty]
    exact .nil
  · dsimp only
    rw [hempty]
    exact .nil

/-! ### Padded sessions -/

/-- Two sessions that a host leads side by side. It asks both for the same, and the second one for silent commands in
between. The values that the first and the second engine have handed out are kept apart, and the answers to what both
were asked for are in a transcript. -/
inductive Session.Padded : Engine → List Value → Engine → List Value → Transcript → Prop where
  | standard (limits : Limits) (sink : Sink) (strict : Bool) :
      Padded ⟨Machine.standard limits sink, strict⟩ [] ⟨Machine.standard limits sink, strict⟩ [] []
  | bare (limits : Limits) (sink : Sink) (strict : Bool) :
      Padded ⟨Machine.bare limits sink, strict⟩ [] ⟨Machine.bare limits sink, strict⟩ [] []
  | both {engine engine' next next' : Engine} {known known' : List Value} {transcript : Transcript}
      {command command' : Command} {steps steps' : Nat} {answer answer' : Answer}
      (hpadded : Padded engine known engine' known' transcript)
      (hcorresponds : command.Corresponds transcript command') (hadmits : engine.Admits known command)
      (hadmits' : engine'.Admits known' command') (hperformed : engine.perform steps command = some (answer, next))
      (hperformed' : engine'.perform steps' command' = some (answer', next'))
      (hconstants : next.machine.constants.size ≤ Word.indexLimit)
      (hconstants' : next'.machine.constants.size ≤ Word.indexLimit) :
      Padded next (answer.given ++ known) next' (answer'.given ++ known') ((answer, answer') :: transcript)
  | silent {engine engine' next' : Engine} {known known' : List Value} {transcript : Transcript} {command : Command}
      {steps : Nat} {answer : Answer} (hpadded : Padded engine known engine' known' transcript)
      (hsilent : command.Silent engine') (hperformed' : engine'.perform steps command = some (answer, next')) :
      Padded engine known next' (answer.given ++ known') transcript

/-- The engines of a session and of a padded one are paired. -/
theorem Session.Padded.exists_paired {engine engine' : Engine} {known known' : List Value} {transcript : Transcript}
    (hpadded : Session.Padded engine known engine' known' transcript) :
    ∃ (matching : Matching) (background background' : Background), background.known = known ∧
      background'.known = known' ∧ Engine.Paired matching transcript engine engine' background background' := by
  induction hpadded with
  | standard limits sink strict =>
    obtain ⟨registry, world, hconsistent, hlisted⟩ := Machine.consistent_standard limits sink
    have hstands : Engine.StandsFor ⟨Machine.standard limits sink, strict⟩ ⟨[], [], registry, world⟩ :=
      ⟨hconsistent, hlisted.mono (List.nil_subset _)⟩
    exact ⟨_, _, _, rfl, rfl, hconsistent.paired hlisted rfl, rfl, hstands, hstands⟩
  | bare limits sink strict =>
    obtain ⟨registry, world, hconsistent, hlisted⟩ := Machine.consistent_bare limits sink
    have hstands : Engine.StandsFor ⟨Machine.bare limits sink, strict⟩ ⟨[], [], registry, world⟩ :=
      ⟨hconsistent, hlisted.mono (List.nil_subset _)⟩
    exact ⟨_, _, _, rfl, rfl, hconsistent.paired hlisted rfl, rfl, hstands, hstands⟩
  | @both _ _ _ _ _ _ _ _ _ steps steps' _ _ _ hcorresponds hadmits hadmits' hperformed hperformed' hconstants
      hconstants' ih =>
    obtain ⟨matching, background, background', rfl, rfl, hpaired⟩ := ih
    obtain ⟨answer, answer', next, next', bound, hanswered, hlater⟩ := hpaired.perform hcorresponds hadmits hadmits'
    have hfirst := (hanswered _ (Nat.le_max_right steps bound)).1
    rw [Engine.perform_mono (Nat.le_max_left steps bound) hperformed] at hfirst
    have hsecond := (hanswered _ (Nat.le_max_right steps' bound)).2
    rw [Engine.perform_mono (Nat.le_max_left steps' bound) hperformed'] at hsecond
    obtain ⟨rfl, rfl⟩ := Prod.mk.inj (Option.some.inj hfirst)
    obtain ⟨rfl, rfl⟩ := Prod.mk.inj (Option.some.inj hsecond)
    exact hlater hconstants hconstants'
  | silent _ hsilent hperformed' ih =>
    obtain ⟨matching, background, background', rfl, rfl, hpaired⟩ := ih
    obtain ⟨later, hknown, hlater⟩ := hpaired.insert hsilent hperformed'
    exact ⟨matching, background, later, rfl, hknown, hlater⟩

/-- Commands that run no code are invisible. Wherever they are put into a session, what else the host asks for is
answered as without them, up to one relation between the functions and classes of both sessions that shows them and
tells them apart alike. The engines look alike up to that relation, and both answer whatever they are asked for next. -/
theorem Session.silent_commands_invisible {engine engine' : Engine} {known known' : List Value}
    {transcript : Transcript} (hpadded : Session.Padded engine known engine' known' transcript) :
    (∃ likeness : Likeness, likeness.Faithful ∧ transcript.Alike likeness ∧
        engine.machine.LooksAlike likeness engine'.machine) ∧
      ∀ command command' : Command, command.Corresponds transcript command' → engine.Admits known command →
        engine'.Admits known' command' →
        ∃ (answer answer' : Answer) (next next' : Engine) (bound : Nat),
          (∀ steps : Nat, bound ≤ steps → engine.perform steps command = some (answer, next) ∧
            engine'.perform steps command' = some (answer', next')) ∧
          (next.machine.constants.size ≤ Word.indexLimit → next'.machine.constants.size ≤ Word.indexLimit →
            ∃ likeness : Likeness, likeness.Faithful ∧
              Transcript.Alike ((answer, answer') :: transcript) likeness ∧
              next.machine.LooksAlike likeness next'.machine) := by
  obtain ⟨matching, background, background', rfl, rfl, hpaired⟩ := hpadded.exists_paired
  refine ⟨⟨_, hpaired.machines.faithful, hpaired.machines.transcript, hpaired.machines.looksAlike⟩,
    fun command command' hcorresponds hadmits hadmits' ↦ ?_⟩
  obtain ⟨answer, answer', next, next', bound, hanswered, hlater⟩ := hpaired.perform hcorresponds hadmits hadmits'
  refine ⟨answer, answer', next, next', bound, hanswered, fun hconstants hconstants' ↦ ?_⟩
  obtain ⟨_, _, _, -, -, hnext⟩ := hlater hconstants hconstants'
  exact ⟨_, hnext.machines.faithful, hnext.machines.transcript, hnext.machines.looksAlike⟩

/-- A fresh engine and one that has compiled the script of a cyclic object before make the same object. -/
theorem Session.silent_commands_invisible_cyclic :
    ∃ (main : Routine) (engine' : Engine),
      Session.Padded Engine.fresh [] engine' [.function (.compiled main)] [] ∧
      (∃ likeness : Likeness, likeness.Faithful ∧ Transcript.Alike [] likeness ∧
        Engine.fresh.machine.LooksAlike likeness engine'.machine) ∧
      ∃ (answer answer' : Answer) (next next' : Engine) (bound : Nat),
        (∀ steps : Nat, bound ≤ steps → Engine.fresh.perform steps (.eval Script.cyclic) = some (answer, next) ∧
          engine'.perform steps (.eval Script.cyclic) = some (answer', next')) ∧
        (next.machine.constants.size ≤ Word.indexLimit → next'.machine.constants.size ≤ Word.indexLimit →
          ∃ likeness : Likeness, likeness.Faithful ∧ Transcript.Alike [(answer, answer')] likeness ∧
            next.machine.LooksAlike likeness next'.machine) := by
  obtain ⟨main, after, hcompiled, hmain, hsize, hroutines⟩ :=
    compileScript_cyclic ⟨Engine.fresh.machine.constants, Engine.fresh.machine.nextIdentity⟩
  have hcompile := @Engine.compile_of_compileScript Engine.fresh _ _ _ hcompiled
  let engine' : Engine := ⟨{ Engine.fresh.machine with
    constants := after.constants
    nextIdentity := after.nextIdentity }, false⟩
  have hperformed : Engine.fresh.perform 0 (.compile Script.cyclic) =
      some (.value (.function (.compiled main)), engine') := by
    rw [Engine.perform, hcompile]
    rfl
  have hpadded : Session.Padded Engine.fresh [] engine' [.function (.compiled main)] [] :=
    .silent (.standard _ _ _) (.compile _) hperformed
  -- the script adds no more the second time than it did the first time
  obtain ⟨latter, last, hagain, hlatter, hmore, hold⟩ :=
    compileScript_cyclic ⟨engine'.machine.constants, engine'.machine.nextIdentity⟩
  have haddresses : engine'.Addresses [.function (.compiled main)] (.eval Script.cyclic) := by
    refine Engine.addresses_eval hagain (Nat.lt_of_le_of_lt (Nat.le_trans hmore (Nat.add_le_add_right hsize 5))
      (by decide)) (by omega) ?_
    rintro routine (hmem | hknown)
    · rcases hold routine hmem with hbefore | hnew
      · have hsmall := (hroutines routine hbefore).resolve_left (Engine.not_mem_constants_fresh routine)
        omega
      · omega
    · cases List.mem_singleton.mp hknown
      omega
  obtain ⟨hlooks, hgoes⟩ := Session.silent_commands_invisible hpadded
  have hsmall : engine'.StaysSmall (.eval Script.cyclic) :=
    fun hlarge ↦ absurd hlarge (show ¬ 4294967296 < Engine.fresh.machine.stack.limit by decide)
  exact ⟨main, engine', hpadded, hlooks, hgoes _ _ (.eval _)
    ⟨trivial, Engine.addresses_cyclic, Engine.staysSmall_fresh _⟩ ⟨trivial, haddresses, hsmall⟩⟩

end ScriptMachine
