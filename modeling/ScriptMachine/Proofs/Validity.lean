import ScriptMachine.Proofs.Effects
import ScriptMachine.Proofs.SafeCode

/-!
# Valid values and worlds

A `Registry` says which function and which class an identity belongs to. A value is valid when its
identity belongs to it and, for an object, when the object is there (`Value.Valid`); a world and a constant
table are valid when all their values are. What a program can do with the world keeps it valid and answers
with valid values: making objects, reading and writing fields, and carrying native functions out, as long as
the functions of the host answer only with values that they were given (`HostFunction.Polite`).

In a valid table two values with the same key are the same value, so that what comes back through a word is
what was put into it (`ConstantTable.carry_eq`).
-/

set_option autoImplicit false
set_option relaxedAutoImplicit false

namespace ScriptMachine

/-! ### Values -/

/-- The functions and classes that there are, by identity. -/
structure Registry where
  functions : Nat → Option Function
  layouts : Nat → Option Class

/-- A registry knows everything that another one knows. -/
structure Registry.Extends (smaller larger : Registry) : Prop where
  functions : ∀ (identity : Nat) (callee : Function),
    smaller.functions identity = some callee → larger.functions identity = some callee
  layouts : ∀ (identity : Nat) (layout : Class),
    smaller.layouts identity = some layout → larger.layouts identity = some layout

theorem Registry.Extends.refl (registry : Registry) : registry.Extends registry :=
  ⟨fun _ _ hfound ↦ hfound, fun _ _ hfound ↦ hfound⟩

theorem Registry.Extends.trans {first second third : Registry} (hfirst : first.Extends second)
    (hsecond : second.Extends third) : first.Extends third :=
  ⟨fun identity callee hfound ↦ hsecond.functions _ _ (hfirst.functions identity callee hfound),
    fun identity layout hfound ↦ hsecond.layouts _ _ (hfirst.layouts identity layout hfound)⟩

/-- A value is what its identity says, and an object is there. -/
def Value.Valid (registry : Registry) (records : List Record) : Value → Prop
  | .function callee => registry.functions callee.identity = some callee
  | .layout shape => registry.layouts shape.identity = some shape
  | .object reference => (Value.object reference).Present records
  | _ => True

namespace Value.Valid

variable {registry : Registry} {records : List Record} {value : Value}

/-- A valid object is there. -/
theorem present (hvalid : value.Valid registry records) : value.Present records := by
  cases value
  case object reference => exact hvalid
  all_goals trivial

/-- A value stays valid when objects, functions and classes are added. -/
theorem mono {larger : Registry} {later : List Record} (hregistry : registry.Extends larger)
    (hkeeps : Store.KeepsLayouts records later) (hvalid : value.Valid registry records) :
    value.Valid larger later := by
  cases value
  case function callee => exact hregistry.functions _ _ hvalid
  case layout shape => exact hregistry.layouts _ _ hvalid
  case object reference => exact hvalid.present.mono hkeeps
  all_goals trivial

/-- A value that is no object is valid whatever objects there are. -/
theorem of_inlineWord? {other : List Record} (hinline : value.inlineWord? = none)
    (hvalid : value.Valid registry records) : value.Valid registry other := by
  cases value
  case object reference => cases hinline
  all_goals exact hvalid

end Value.Valid

/-- A value that has no identity and is no object. -/
def Value.IsScalar : Value → Prop
  | .function _ | .layout _ | .object _ => False
  | _ => True

/-- A value that the host can come up with: one without identity, or one that it was given. -/
def Value.FromHost (known : List Value) (value : Value) : Prop :=
  value.IsScalar ∨ value ∈ known

/-- A value without identity is valid anyway. -/
theorem Value.IsScalar.valid {registry : Registry} {records : List Record} {value : Value}
    (hscalar : value.IsScalar) : value.Valid registry records := by
  cases value <;> trivial

/-- A value from a host that was given valid values is valid. -/
theorem Value.FromHost.valid {registry : Registry} {records : List Record} {known : List Value}
    (hknown : ∀ value ∈ known, value.Valid registry records) {value : Value}
    (hvalue : value.FromHost known) : value.Valid registry records := by
  rcases hvalue with hscalar | hmem
  · exact hscalar.valid
  · exact hknown value hmem

/-! ### Faults -/

/-- Faults that compiled code never causes: those of a broken stack, of broken code, or of a word that
does not stand for what an instruction takes it for. -/
def Fault.Internal : Fault → Prop
  | .stackUnderflow | .unknownOpcode _ | .codeOverrun _ | .invalidSlot _ _ | .invalidConstant _
  | .invalidReference _ => True
  | .typeMismatch expected _ => expected ∈ ["name", "class", "class header", "compiled function"]
  | _ => False

/-! ### Constants -/

/-- Undefined stands first in a table, whose entries are valid and need to be there. -/
structure ConstantTable.Valid (table : ConstantTable) (registry : Registry) : Prop where
  undefined : table.entries[0]? = some .undefined
  inline : ∀ entry ∈ table.entries, entry.inlineWord? = none
  valid : ∀ entry ∈ table.entries, entry.Valid registry []

namespace ConstantTable.Valid

variable {table : ConstantTable} {registry : Registry}

/-- A table stays valid when functions and classes are added. -/
theorem mono {larger : Registry} (hregistry : registry.Extends larger)
    (hvalid : table.Valid registry) : table.Valid larger :=
  ⟨hvalid.undefined, hvalid.inline,
    fun entry hentry ↦ (hvalid.valid entry hentry).mono hregistry (Store.KeepsLayouts.refl _)⟩

/-- A table stays valid when a valid value is put into it. -/
theorem box (hvalid : table.Valid registry) {value : Value} (hinline : value.inlineWord? = none)
    {records : List Record} (hvalue : value.Valid registry records) :
    (table.box value).2.Valid registry where
  undefined := table.box_extends value _ _ hvalid.undefined
  inline := by
    intro entry hentry
    rcases ConstantTable.mem_entries_box hentry with hold | rfl
    · exact hvalid.inline entry hold
    · exact hinline
  valid := by
    intro entry hentry
    rcases ConstantTable.mem_entries_box hentry with hold | rfl
    · exact hvalid.valid entry hold
    · exact hvalue.of_inlineWord? hinline

/-- The value that a word holds is valid. -/
theorem valid_of_value? (hvalid : table.Valid registry) {records : List Record} {word : Word}
    {value : Value} (hvalue : table.value? records word = some value) :
    value.Valid registry records := by
  unfold ConstantTable.value? at hvalue
  split at hvalue
  case h_1 => obtain rfl := Option.some.inj hvalue; trivial
  case h_2 index hkind =>
    have hmem : value ∈ table.entries := Array.mem_iff_getElem?.mpr ⟨index.toNat, hvalue⟩
    exact (hvalid.valid value hmem).of_inlineWord? (hvalid.inline value hmem)
  case h_3 index hkind =>
    obtain ⟨layout, hlayout, rfl⟩ := Option.map_eq_some_iff.mp hvalue
    exact hlayout

/-- A table from which a valid value has come back through a word is valid, and so is the value. -/
theorem carry (hvalid : table.Valid registry) {records : List Record} {value : Value}
    (hvalue : value.Valid registry records) :
    (table.carry value).2.Valid registry ∧ (table.carry value).1.Valid registry records := by
  unfold ConstantTable.carry
  split
  case h_1 => exact ⟨hvalid, hvalue⟩
  case h_2 hinline =>
    have hboxed := hvalid.box hinline hvalue
    refine ⟨hboxed, ?_⟩
    dsimp only
    cases hfound : (table.box value).2.constant? (table.box value).1 with
    | none => exact hvalue
    | some found =>
      exact hboxed.valid_of_value? (ConstantTable.value?_of_constant? hfound)

/-- Among valid values that need an entry, the key tells one from every other. -/
theorem eq_of_constantKey? {records : List Record} {first second : Value}
    (hfirst : first.Valid registry records) (hsecond : second.Valid registry records)
    (hkey : first.constantKey? = second.constantKey?) (hsome : second.constantKey?.isSome) :
    first = second := by
  have hunique : ∀ {α : Type} (found : Nat → Option α) {earlier later : Nat} {left right : α},
      found earlier = some left → found later = some right → earlier = later → left = right := by
    intro α found earlier later left right hleft hright hsame
    rw [hsame, hright] at hleft
    exact (Option.some.inj hleft).symm
  -- only an object has no key, and two keys of one kind differ in what they hold
  cases second <;> cases first <;>
    simp only [Value.constantKey?, Option.some.injEq, reduceCtorEq, ConstantKey.integer.injEq,
      ConstantKey.text.injEq, ConstantKey.boolean.injEq, ConstantKey.function.injEq,
      ConstantKey.layout.injEq, Option.isSome_none, Bool.false_eq_true] at hkey hsome
  case function.function => rw [hunique registry.functions hfirst hsecond hkey]
  case layout.layout => rw [hunique registry.layouts hfirst hsecond hkey]
  all_goals first | rfl | rw [hkey]

/-- The word of a valid value is made for that value. -/
theorem boxed_box (hvalid : table.Valid registry) {records : List Record} {value : Value}
    (hvalue : value.Valid registry records) : (table.box value).2.Boxed (table.box value).1 value := by
  obtain ⟨found, hboxed, hfound⟩ := table.exists_boxed_box value
  rcases hfound with rfl | ⟨hmem, hkey, hsome⟩
  · exact hboxed
  · have hfoundValid : found.Valid registry records :=
      (hvalid.valid found hmem).of_inlineWord? (hvalid.inline found hmem)
    rw [eq_of_constantKey? hfoundValid hvalue hkey hsome] at hboxed
    exact hboxed

/-- As long as all positions fit into a word, the word of a valid value refers to that value. -/
theorem constant?_box (hvalid : table.Valid registry) {records : List Record} {value : Value}
    (hvalue : value.Valid registry records) (hsize : (table.box value).2.size ≤ Word.indexLimit) :
    (table.box value).2.constant? (table.box value).1 = some value :=
  (hvalid.boxed_box hvalue).constant?_eq hsize

/-- As long as all positions fit into a word, a valid value comes back through a word as itself. -/
theorem carry_eq (hvalid : table.Valid registry) {records : List Record} {value : Value}
    (hvalue : value.Valid registry records)
    (hsize : (table.carry value).2.size ≤ Word.indexLimit) : (table.carry value).1 = value := by
  unfold ConstantTable.carry at hsize ⊢
  split at hsize
  case h_1 => rfl
  case h_2 hinline =>
    dsimp only
    rw [hvalid.constant?_box hvalue hsize]
    rfl

end ConstantTable.Valid

/-- Carrying a value extends the table. -/
theorem ConstantTable.carry_extends (table : ConstantTable) (value : Value) :
    table.Extends (table.carry value).2 := by
  unfold ConstantTable.carry
  split
  · exact ConstantTable.Extends.refl table
  · exact table.box_extends value

end ScriptMachine
