import ScriptMachine.Proofs.Complaints

/-!
# The order of slots

`SlotTable.allocate_layout` says completely what the slots of a function are and when there are none. The
variables follow the parameters in the order of their evaluation, as `Block.declared` lists them, each where it
is declared first. The table is refused for one reason alone: `SlotTable.Redeclares` finds the first parameter
or strict variable whose name is taken, and the complaint is about that one.
-/

set_option autoImplicit false
set_option relaxedAutoImplicit false

namespace ScriptMachine

/-! ### The first repetition -/

/-- The first repetition is the member whose name is taken by those before it, which are all different. -/
theorem head?_repetitions_eq_some_iff {α : Type} {name : α → String} {seen : List String} {members : List α}
    {member : α} (hseen : seen.Nodup) :
    (repetitions name seen members).head? = some member ↔
      ∃ before after : List α, members = before ++ member :: after ∧ (seen ++ before.map name).Nodup ∧
        name member ∈ seen ++ before.map name := by
  induction members generalizing seen with
  | nil => simp [repetitions]
  | cons first rest ih =>
    by_cases htaken : name first ∈ seen
    · rw [repetitions, if_pos htaken, List.singleton_append, List.head?_cons, Option.some_inj]
      constructor
      · rintro rfl
        exact ⟨[], rest, rfl, by simpa using hseen, by simpa using htaken⟩
      · rintro ⟨before, after, hmembers, hdistinct, -⟩
        rcases List.cons_eq_append_iff.mp hmembers with ⟨-, hsame⟩ | ⟨more, rfl, -⟩
        · exact (List.cons.inj hsame).1.symm
        · -- the first member cannot be one of those before another, for its name is taken
          rw [List.map_cons, List.nodup_append] at hdistinct
          exact absurd rfl (hdistinct.2.2 _ htaken _ List.mem_cons_self)
    · rw [repetitions, if_neg htaken, List.nil_append, ih (List.nodup_cons.mpr ⟨htaken, hseen⟩)]
      have hmoved (before : List α) :
          (seen ++ (first :: before).map name).Perm (name first :: seen ++ before.map name) :=
        List.perm_middle
      constructor
      · rintro ⟨before, after, rfl, hdistinct, hagain⟩
        exact ⟨first :: before, after, rfl, (hmoved before).nodup_iff.mpr hdistinct,
          (hmoved before).mem_iff.mpr hagain⟩
      · rintro ⟨before, after, hmembers, hdistinct, hagain⟩
        rcases List.cons_eq_append_iff.mp hmembers with ⟨rfl, hsame⟩ | ⟨more, rfl, hrest⟩
        · rw [(List.cons.inj hsame).1] at hagain
          exact absurd (by simpa using hagain) htaken
        · exact ⟨more, after, hrest, (hmoved more).nodup_iff.mp hdistinct, (hmoved more).mem_iff.mp hagain⟩

/-! ### Allocating -/

namespace SlotTable

/-- The complaint about the first name that is declared again: a parameter that is the receiver or one of the
parameters before it, or a strict variable whose name has a slot when it is declared. -/
inductive Redeclares (strict : Bool) (parameters : List String) (body : Block Node) (line : UInt32) :
    CompileError → Prop where
  | parameter {before after : List String} {name : String} (hparameters : parameters = before ++ name :: after)
      (hbefore : (receiverName :: before).Nodup) (hagain : name ∈ receiverName :: before) :
      Redeclares strict parameters body line (.redeclaration name line)
  | declaration {before after : List Declaration} {declared : Declaration} (hstrict : strict = true)
      (hdeclared : body.declared = before ++ declared :: after)
      (hbefore : (receiverName :: parameters ++ before.map Declaration.name).Nodup)
      (hagain : declared.name ∈ receiverName :: parameters ++ before.map Declaration.name) :
      Redeclares strict parameters body line (.redeclaration declared.name declared.line)

variable {strict : Bool} {parameters : List String} {body : Block Node} {line : UInt32}

/-- The first parameter that is the receiver or repeats another one. -/
theorem head?_parameters_eq_some_iff {name : String} :
    (repetitions id [receiverName] parameters).head? = some name ↔
      ∃ before after : List String, parameters = before ++ name :: after ∧ (receiverName :: before).Nodup ∧
        name ∈ receiverName :: before := by
  rw [head?_repetitions_eq_some_iff (List.nodup_singleton _)]
  simp only [List.map_id, List.singleton_append, id]

/-- The parameters are declared when they are different and none is the receiver. -/
theorem parameters_eq_nil_iff :
    repetitions id [receiverName] parameters = [] ↔ (receiverName :: parameters).Nodup := by
  have hwell := redeclarations_eq_nil_iff false parameters ⟨[], 0⟩ 0
  simpa [redeclarations] using hwell

/-- What is wrong with the declarations of a function is complained about at the first repetition. -/
theorem head?_redeclarations_eq_some_iff {fault : CompileError} :
    (redeclarations strict parameters body line).head? = some fault ↔
      Redeclares strict parameters body line fault := by
  unfold redeclarations
  cases hrepeated : repetitions id [receiverName] parameters with
  | cons name rest =>
    have hfirst : (repetitions id [receiverName] parameters).head? = some name := by rw [hrepeated]; rfl
    obtain ⟨before, after, hparameters, hbefore, hagain⟩ := head?_parameters_eq_some_iff.mp hfirst
    rw [List.map_cons, List.cons_append, List.head?_cons, Option.some_inj]
    constructor
    · rintro rfl
      exact .parameter hparameters hbefore hagain
    · rintro (⟨hother, hotherBefore, hotherAgain⟩ | ⟨-, -, hdistinct, -⟩)
      · have hsame := hfirst.symm.trans (head?_parameters_eq_some_iff.mpr ⟨_, _, hother, hotherBefore, hotherAgain⟩)
        rw [Option.some_inj.mp hsame]
      · rw [parameters_eq_nil_iff.mpr hdistinct.of_append_left] at hrepeated
        cases hrepeated
  | nil =>
    have hdistinct := parameters_eq_nil_iff.mp hrepeated
    rw [List.map_nil, List.nil_append]
    constructor
    · intro hfirst
      cases strict with
      | false => cases hfirst
      | true =>
        rw [if_pos rfl, List.head?_map, Option.map_eq_some_iff] at hfirst
        obtain ⟨declaration, hdeclaration, rfl⟩ := hfirst
        obtain ⟨before, after, hdeclared, hbefore, hagain⟩ :=
          (head?_repetitions_eq_some_iff hdistinct).mp hdeclaration
        exact .declaration rfl hdeclared hbefore hagain
    · rintro (⟨hparameters, hbefore, hagain⟩ | ⟨rfl, hdeclared, hbefore, hagain⟩)
      · have hsome := head?_parameters_eq_some_iff.mpr ⟨_, _, hparameters, hbefore, hagain⟩
        rw [hrepeated] at hsome
        cases hsome
      · rw [if_pos rfl, List.head?_map,
          (head?_repetitions_eq_some_iff hdistinct).mpr ⟨_, _, hdeclared, hbefore, hagain⟩]
        rfl

/-- The slots of a function are refused for the first repetition. -/
theorem allocate_eq_error_iff {fault : CompileError} :
    allocate parameters body strict line = .error fault ↔ Redeclares strict parameters body line fault := by
  have hhead := head?_redeclarations parameters body strict line
  rw [← head?_redeclarations_eq_some_iff, hhead]
  cases allocate parameters body strict line with
  | ok slots => simp
  | error other => simp

/-- There is a repetition exactly when parameters are not different from each other and from the receiver, or
strict variables are not different from these and from each other. -/
theorem exists_redeclares_iff :
    (∃ fault : CompileError, Redeclares strict parameters body line fault) ↔
      ¬ (receiverName :: parameters).Nodup ∨
        strict = true ∧ ¬ (receiverName :: parameters ++ body.declared.map Declaration.name).Nodup := by
  have hnone := redeclarations_eq_nil_iff strict parameters body line
  have hsome : (∃ fault : CompileError, Redeclares strict parameters body line fault) ↔
      redeclarations strict parameters body line ≠ [] := by
    rw [Ne, ← List.head?_eq_none_iff, ← Ne, Option.ne_none_iff_exists']
    exact exists_congr fun fault ↦ head?_redeclarations_eq_some_iff.symm
  have hapart : (∀ declaration ∈ body.declared, declaration.name ∉ receiverName :: parameters) ↔
      ∀ taken ∈ receiverName :: parameters, ∀ name ∈ body.declared.map Declaration.name, taken ≠ name := by
    refine ⟨fun hnew taken htaken name hname hsame ↦ ?_, fun hnew declaration hmem htaken ↦ ?_⟩
    · obtain ⟨declaration, hmem, rfl⟩ := List.mem_map.mp hname
      exact hnew declaration hmem (hsame ▸ htaken)
    · exact hnew _ htaken _ (List.mem_map_of_mem hmem) rfl
  rw [hsome, Ne, hnone, List.nodup_append, hapart]
  tauto

/-- The slots of a function. If there are any, the receiver is the first, the parameters follow in order, and
then the variables, each where it is declared first and unless it is among these; the names are different, and
each is found at its position. If there are none, the first name that is declared again is complained about,
which is a parameter or, where variables are strict, a variable. -/
theorem allocate_layout (parameters : List String) (body : Block Node) (strict : Bool) (line : UInt32) :
    (∀ slots : SlotTable, allocate parameters body strict line = .ok slots →
      slots.names = receiverName :: parameters ++
          ((body.declared.map Declaration.name).filter fun name ↦ name ∉ receiverName :: parameters).eraseDups ∧
        slots.names.Nodup ∧
        (∀ (name : String) (slot : Nat), slots.slotOf? name = some slot ↔ slots.names[slot]? = some name) ∧
        (∀ name : String, slots.slotOf? name = none ↔ name ∉ slots.names) ∧
        parameters.length + 1 ≤ slots.size) ∧
      (∀ fault : CompileError,
        allocate parameters body strict line = .error fault ↔ Redeclares strict parameters body line fault) ∧
      ((∃ fault : CompileError, allocate parameters body strict line = .error fault) ↔
        ¬ (receiverName :: parameters).Nodup ∨
          strict = true ∧ ¬ (receiverName :: parameters ++ body.declared.map Declaration.name).Nodup) := by
  refine ⟨fun slots hslots ↦ ?_, fun fault ↦ allocate_eq_error_iff, ?_⟩
  · have hnames := names_of_allocate hslots
    rw [body.declarationsOf_nodes] at hnames
    refine ⟨hnames, slots.distinct, fun name slot ↦ slotOf?_eq_some_iff, slots.slotOf?_eq_none_iff, ?_⟩
    rw [size, hnames, List.length_append, List.length_cons]
    exact Nat.le_add_right _ _
  · rw [← exists_redeclares_iff]
    exact exists_congr fun fault ↦ allocate_eq_error_iff

/-- A body that declares a variable inside a call, one named like the parameter, and the first one again. -/
def sharingBody : Block Node :=
  ⟨[.call (.access "print" 2) [.assignment "a" (.literal (.integer 1) 2) true 2] 2,
    .assignment "x" (.literal (.integer 2) 3) true 3,
    .assignment "a" (.literal (.integer 3) 4) true 4], 1⟩

theorem allocate_layout_sharing :
    (∃ slots : SlotTable, allocate ["x"] sharingBody false 1 = .ok slots ∧ slots.names = ["this", "x", "a"] ∧
      slots.slotOf? "a" = some 2) ∧
      allocate ["x"] sharingBody true 1 = .error (.redeclaration "x" 3) := by
  obtain ⟨haccepted, -, hrefused⟩ := allocate_layout ["x"] sharingBody false 1
  obtain ⟨-, hfault, -⟩ := allocate_layout ["x"] sharingBody true 1
  constructor
  · cases hslots : allocate ["x"] sharingBody false 1 with
    | error fault => exact absurd (hrefused.mp ⟨fault, hslots⟩) (by decide)
    | ok slots =>
      obtain ⟨hnames, -, hfound, -⟩ := haccepted slots hslots
      have hall : slots.names = ["this", "x", "a"] := hnames.trans (by decide)
      refine ⟨slots, rfl, hall, (hfound "a" 2).mpr ?_⟩
      rw [hall]
      rfl
  · have hbefore : (receiverName :: ["x"] ++ [Declaration.mk "a" 2].map Declaration.name).Nodup := by decide
    have hagain : (Declaration.mk "x" 3).name ∈ receiverName :: ["x"] ++ [Declaration.mk "a" 2].map Declaration.name :=
      by decide
    exact (hfault _).mpr (.declaration rfl rfl hbefore hagain)

end SlotTable

end ScriptMachine
