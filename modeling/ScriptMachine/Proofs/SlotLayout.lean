import Mathlib.Data.List.Nodup
import ScriptMachine.Slots

/-!
# The slots of a function

The index of a table finds every name at the only position of the name (`SlotTable.slotOf?_eq_some_iff`), and
declaring a name either finds its slot or appends it (`SlotTable.declare_of_mem`,
`SlotTable.declare_of_not_mem`).

`SlotTable.allocate` puts the receiver first, then the parameters, all of them different, and behind them
the declared variables that are none of those (`SlotTable.exists_names_of_allocate`). Every declared name
has a slot, and no other name has one.
-/

set_option autoImplicit false
set_option relaxedAutoImplicit false

namespace ScriptMachine

namespace SlotTable

/-! ### Slots of names -/

/-- The index finds a name where it is found first among the names. -/
theorem slotOf?_eq_findIdx? (table : SlotTable) (name : String) :
    table.slotOf? name = table.names.findIdx? fun slotName ↦ slotName == name :=
  table.index_eq name

/-- A name has a slot when it is among the names of the table. -/
theorem slotOf?_isSome_iff (table : SlotTable) (name : String) :
    (table.slotOf? name).isSome ↔ name ∈ table.names := by
  simp [slotOf?_eq_findIdx?]

/-- A name has no slot when it is not among the names of the table. -/
theorem slotOf?_eq_none_iff (table : SlotTable) (name : String) :
    table.slotOf? name = none ↔ name ∉ table.names := by
  rw [← slotOf?_isSome_iff, Option.not_isSome_iff_eq_none]

/-- The slot of a name is a position of that name. -/
theorem getElem?_of_slotOf? {table : SlotTable} {name : String} {slot : Nat}
    (hslot : table.slotOf? name = some slot) : table.names[slot]? = some name := by
  rw [slotOf?_eq_findIdx?] at hslot
  obtain ⟨hinside, hsame, -⟩ := List.findIdx?_eq_some_iff_getElem.mp hslot
  rw [List.getElem?_eq_getElem hinside, beq_iff_eq.mp hsame]

/-- The slot of a name is the position of that name. -/
theorem slotOf?_eq_some_iff {table : SlotTable} {name : String} {slot : Nat} :
    table.slotOf? name = some slot ↔ table.names[slot]? = some name := by
  refine ⟨getElem?_of_slotOf?, fun hname ↦ ?_⟩
  have hmem : name ∈ table.names := List.mem_of_getElem? hname
  obtain ⟨other, hother⟩ := Option.isSome_iff_exists.mp ((table.slotOf?_isSome_iff name).mpr hmem)
  obtain ⟨hinside, hat⟩ := List.getElem?_eq_some_iff.mp hname
  obtain ⟨hotherInside, hotherAt⟩ := List.getElem?_eq_some_iff.mp (getElem?_of_slotOf? hother)
  rw [hother, (table.distinct.getElem_inj_iff).mp (hotherAt.trans hat.symm)]

/-- The slot of a name counts among the slots. -/
theorem slotOf?_lt {table : SlotTable} {name : String} {slot : Nat}
    (hslot : table.slotOf? name = some slot) : slot < table.size :=
  (List.getElem?_eq_some_iff.mp (getElem?_of_slotOf? hslot)).1

/-! ### Declaring -/

/-- Declaring a name of the table finds it. -/
theorem declare_of_mem {table : SlotTable} {name : String} (hmem : name ∈ table.names) :
    (table.declare name).2 = (false, table) := by
  have hslot := (table.slotOf?_isSome_iff name).mpr hmem
  unfold declare
  split
  · rfl
  · rename_i hnone
    rw [slotOf?, hnone] at hslot
    cases hslot

/-- Declaring a name that is not in the table appends it. -/
theorem declare_of_not_mem {table : SlotTable} {name : String} (hnew : name ∉ table.names) :
    (table.declare name).2.1 = true ∧ (table.declare name).2.2.names = table.names ++ [name] := by
  have hslot := (table.slotOf?_eq_none_iff name).mpr hnew
  unfold declare
  split
  · rename_i hsome
    rw [slotOf?, hsome] at hslot
    cases hslot
  · exact ⟨rfl, rfl⟩

/-- The names of a table with a name declared. -/
theorem names_declare (table : SlotTable) (name : String) :
    (table.declare name).2.2.names = if name ∈ table.names then table.names else table.names ++ [name] := by
  split_ifs with hmem
  · rw [declare_of_mem hmem]
  · exact (declare_of_not_mem hmem).2

/-- Declaring gives the slot that the name has from then on. -/
theorem slotOf?_declare (table : SlotTable) (name : String) :
    (table.declare name).2.2.slotOf? name = some (table.declare name).1 := by
  unfold declare slotOf?
  split
  · assumption
  · exact Std.HashMap.getElem?_insert_self

/-- The first name of a table is that of the receiver. -/
@[simp] theorem names_ofReceiver : ofReceiver.names = [receiverName] :=
  (declare_of_not_mem List.not_mem_nil).2

/-- A parameter is declared as long as it is new. -/
theorem declareParameter_eq (line : UInt32) (table : SlotTable) (parameter : String) :
    declareParameter line table parameter =
      if parameter ∈ table.names then .error (.redeclaration parameter line)
      else .ok (table.declare parameter).2.2 := by
  unfold declareParameter
  rcases hdeclare : table.declare parameter with ⟨slot, fresh, next⟩
  by_cases hmem : parameter ∈ table.names
  · have hfound := declare_of_mem hmem
    rw [hdeclare] at hfound
    obtain ⟨rfl, rfl⟩ := Prod.mk.inj hfound
    rw [if_pos hmem]
    rfl
  · have hadded := (declare_of_not_mem hmem).1
    rw [hdeclare] at hadded
    obtain rfl : fresh = true := hadded
    rw [if_neg hmem]
    rfl

/-- A variable is declared if it is new, and a strict one has to be. -/
theorem declareVariable_eq (strict : Bool) (table : SlotTable) (declaration : Declaration) :
    declareVariable strict table declaration =
      if declaration.name ∈ table.names then
        if strict then .error (.redeclaration declaration.name declaration.line) else .ok table
      else .ok (table.declare declaration.name).2.2 := by
  unfold declareVariable
  rcases hdeclare : table.declare declaration.name with ⟨slot, fresh, next⟩
  by_cases hmem : declaration.name ∈ table.names
  · have hfound := declare_of_mem hmem
    rw [hdeclare] at hfound
    obtain ⟨rfl, rfl⟩ := Prod.mk.inj hfound
    rw [if_pos hmem]
    rfl
  · have hadded := (declare_of_not_mem hmem).1
    rw [hdeclare] at hadded
    obtain rfl : fresh = true := hadded
    rw [if_neg hmem]
    rfl

/-! ### Allocating -/

/-- Parameters are added in order. -/
theorem names_of_declareParameters {line : UInt32} {parameters : List String} {table later : SlotTable}
    (hdeclared : parameters.foldlM (declareParameter line) table = .ok later) :
    later.names = table.names ++ parameters := by
  induction parameters generalizing table with
  | nil =>
    obtain rfl := Except.ok.inj hdeclared
    exact (List.append_nil _).symm
  | cons parameter rest ih =>
    rw [List.foldlM_cons, declareParameter_eq] at hdeclared
    by_cases hmem : parameter ∈ table.names
    · rw [if_pos hmem] at hdeclared
      cases hdeclared
    · rw [if_neg hmem] at hdeclared
      rw [ih hdeclared, (declare_of_not_mem hmem).2, List.append_assoc, List.singleton_append]

/-- Declared variables are added in order, each where it is declared first and unless it is there before. -/
theorem names_of_declareVariables {strict : Bool} {declarations : List Declaration} {table later : SlotTable}
    (hdeclared : declarations.foldlM (declareVariable strict) table = .ok later) :
    later.names = table.names ++
      ((declarations.map Declaration.name).filter fun name ↦ name ∉ table.names).eraseDups := by
  induction declarations generalizing table with
  | nil =>
    obtain rfl := Except.ok.inj hdeclared
    simp
  | cons declaration rest ih =>
    rw [List.foldlM_cons, declareVariable_eq] at hdeclared
    by_cases hmem : declaration.name ∈ table.names
    · rw [if_pos hmem] at hdeclared
      rw [List.map_cons, List.filter_cons_of_neg (by simpa using hmem)]
      cases strict with
      | true => cases hdeclared
      | false => exact ih hdeclared
    · rw [if_neg hmem] at hdeclared
      rw [ih hdeclared, (declare_of_not_mem hmem).2, List.map_cons, List.filter_cons_of_pos (by simpa using hmem),
        List.eraseDups_cons, List.filter_filter, List.append_assoc, List.singleton_append]
      simp [and_comm, beq_eq_decide]

/-- The names of the slots: the receiver, the parameters, and behind them the other variables that the body
declares, each where it is declared first. -/
theorem names_of_allocate {parameters : List String} {body : Block Node} {strict : Bool}
    {line : UInt32} {slots : SlotTable} (hslots : allocate parameters body strict line = .ok slots) :
    slots.names = receiverName :: parameters ++
      (((declarationsOf body.nodes).map Declaration.name).filter
        fun name ↦ name ∉ receiverName :: parameters).eraseDups := by
  unfold allocate at hslots
  simp only [bind, Except.bind] at hslots
  cases hparameters : parameters.foldlM (declareParameter line) ofReceiver with
  | error error =>
    rw [hparameters] at hslots
    cases hslots
  | ok table =>
    rw [hparameters] at hslots
    have hnames := names_of_declareParameters hparameters
    rw [names_ofReceiver, List.singleton_append] at hnames
    rw [names_of_declareVariables hslots, hnames]

/-- The names of the slots: receiver and parameters, all different, and behind them the declared
variables. -/
theorem exists_names_of_allocate {parameters : List String} {body : Block Node} {strict : Bool}
    {line : UInt32} {slots : SlotTable} (hslots : allocate parameters body strict line = .ok slots) :
    ∃ added : List String, slots.names = receiverName :: parameters ++ added ∧
      (receiverName :: parameters).Nodup ∧
      ∀ name : String, name ∈ slots.names ↔
        name ∈ receiverName :: parameters ∨ name ∈ (declarationsOf body.nodes).map Declaration.name := by
  have hnames := names_of_allocate hslots
  have hdistinct := slots.distinct
  refine ⟨_, hnames, ?_, fun name ↦ ?_⟩
  · rw [hnames] at hdistinct
    exact hdistinct.of_append_left
  · rw [hnames, List.mem_append, List.mem_eraseDups, List.mem_filter, decide_eq_true_iff]
    tauto

/-- Which variables are added does not depend on whether a repeated declaration is an error. -/
theorem declareVariables_unique {strict strict' : Bool} {declarations : List Declaration}
    {table later later' : SlotTable}
    (hdeclared : declarations.foldlM (declareVariable strict) table = .ok later)
    (hdeclared' : declarations.foldlM (declareVariable strict') table = .ok later') : later = later' := by
  induction declarations generalizing table with
  | nil => exact Except.ok.inj (hdeclared.symm.trans hdeclared')
  | cons declaration rest ih =>
    rw [List.foldlM_cons, declareVariable_eq] at hdeclared hdeclared'
    by_cases hmem : declaration.name ∈ table.names
    · rw [if_pos hmem] at hdeclared hdeclared'
      cases strict with
      | true => cases hdeclared
      | false =>
        cases strict' with
        | true => cases hdeclared'
        | false => exact ih hdeclared hdeclared'
    · rw [if_neg hmem] at hdeclared hdeclared'
      exact ih hdeclared hdeclared'

/-- Which parameters are added does not depend on the line of the function. -/
theorem declareParameters_unique {line line' : UInt32} {parameters : List String} {table later later' : SlotTable}
    (hdeclared : parameters.foldlM (declareParameter line) table = .ok later)
    (hdeclared' : parameters.foldlM (declareParameter line') table = .ok later') : later = later' := by
  induction parameters generalizing table with
  | nil => exact Except.ok.inj (hdeclared.symm.trans hdeclared')
  | cons parameter rest ih =>
    rw [List.foldlM_cons, declareParameter_eq] at hdeclared hdeclared'
    by_cases hmem : parameter ∈ table.names
    · rw [if_pos hmem] at hdeclared
      cases hdeclared
    · rw [if_neg hmem] at hdeclared hdeclared'
      exact ih hdeclared hdeclared'

/-- The slots of a function depend on its parameters and its body only. -/
theorem allocate_unique {parameters : List String} {body : Block Node} {strict strict' : Bool}
    {line line' : UInt32} {slots slots' : SlotTable} (hslots : allocate parameters body strict line = .ok slots)
    (hslots' : allocate parameters body strict' line' = .ok slots') : slots = slots' := by
  unfold allocate at hslots hslots'
  simp only [bind, Except.bind] at hslots hslots'
  cases hparameters : parameters.foldlM (declareParameter line) ofReceiver with
  | error error =>
    rw [hparameters] at hslots
    cases hslots
  | ok table =>
    cases hparameters' : parameters.foldlM (declareParameter line') ofReceiver with
    | error error =>
      rw [hparameters'] at hslots'
      cases hslots'
    | ok table' =>
      obtain rfl := declareParameters_unique hparameters hparameters'
      rw [hparameters] at hslots
      rw [hparameters'] at hslots'
      exact declareVariables_unique hslots hslots'

end SlotTable

end ScriptMachine
