import ScriptMachine.Proofs.TreeRoundTrip

/-!
# Layouts of trees

The JSON value of a tree may be laid out in many ways: the members of an object come in any order, members that the
format does not know may stand beside the others, and a line that is zero and the missing name of a function may be
written or left out. `Relaid` is one such change, anywhere in the value. What is known of an object depends on what it
stands for (`Role`), and for a node on its form, so that a name may be known in one object and mean nothing in another
(`Shape`).

A change keeps a value within the nesting limit and its strings and numbers sound (`Relaid.fits`), and leaves every part
of a record where it was, up to a change inside of it (`MembersRelaid.exists_partOf?`).
-/

set_option autoImplicit false
set_option relaxedAutoImplicit false

namespace ScriptMachine

open Json

/-! ### What values stand for -/

/-- What a value stands for in a tree. -/
inductive Role where
  | script
  | block
  | field
  | node
  | list (item : Role)
  | plain
  deriving DecidableEq, Repr

/-- What a part of a node with a known form stands for. -/
def NodeKind.role : NodeKind → String → Role
  | .block, "instrs" | .call, "args" | .methodCall, "args" => .list .node
  | .object, "fields" => .list .field
  | .function, "parameters" => .list .plain
  | .function, "body" | .conditional, "then_block" | .conditional, "else_block" => .block
  | .call, "callee" | .assignment, "expr" | .ret, "expr" | .conditional, "condition" | .fieldAccess, "receiver"
  | .fieldAssignment, "receiver" | .fieldAssignment, "expr" | .methodCall, "receiver" => .node
  | _, _ => .plain

/-- Which members of an object are known. -/
inductive Shape where
  | script
  | block
  | field
  | node (kind : NodeKind)
  | other
  deriving DecidableEq, Repr

namespace Shape

/-- The names that are known. -/
def names : Shape → List String
  | .script => ["body"]
  | .block => NodeKind.block.parts
  | .field => ["name", "value"]
  | .node kind => "kind" :: kind.parts
  | .other => []

/-- What the value of a member stands for. -/
def role : Shape → String → Role
  | .script, "body" => .block
  | .block, "instrs" => .list .node
  | .field, "value" => .node
  | .node kind, name => kind.role name
  | _, _ => .plain

/-- The value that a member may have just as well as be left out: the line zero of a block or a node, and null for the
name of a function. -/
def default? : Shape → String → Option Json
  | .block, "line" => some (.ofNat 0)
  | .node _, "line" => some (.ofNat 0)
  | .node .function, "name" => some .null
  | _, _ => none

end Shape

namespace Role

/-- The members that are known of a value. Those of a node depend on its form. -/
def shape : Role → Json → Shape
  | .script, _ => .script
  | .block, _ => .block
  | .field, _ => .field
  | .node, .object members => ((required? members "kind" anyKind?).map .node).getD .other
  | .node, .array (first :: _) => ((anyKind? first).map .node).getD .other
  | _, _ => .other

/-- What an item of an array stands for: in a list all the same, and in a record what the part at its position does. -/
def item (role : Role) (items : List Json) (position : Nat) : Role :=
  match role with
  | .list item => item
  | _ => ((role.shape (.array items)).names[position]?).elim .plain (role.shape (.array items)).role

end Role

/-! ### Changes of the layout -/

/-- A value is sound and within the nesting limit, inside some number of arrays and objects. -/
def Json.Fits (around : Nat) (json : Json) : Prop :=
  json.isSound = true ∧ json.depth + around ≤ depthLimit

mutual

/-- A value is laid out differently, inside some number of arrays and objects. -/
inductive Relaid : (around : Nat) → Role → Json → Json → Prop where
  | members {around : Nat} {role : Role} {members others : List (Member Json)}
      (hmembers : MembersRelaid around (role.shape (.object members)) members others) :
      Relaid around role (.object members) (.object others)
  | item {around : Nat} {role : Role} {before behind : List Json} {item changed : Json}
      (hitem : Relaid (around + 1) (role.item (before ++ item :: behind) before.length) item changed) :
      Relaid around role (.array (before ++ item :: behind)) (.array (before ++ changed :: behind))

/-- The members of an object are laid out differently: they come in another order, or a member that is not known comes
along, or a member with the value that stands for it anyway comes along or goes, or the value of one is laid out
differently. -/
inductive MembersRelaid : (around : Nat) → Shape → List (Member Json) → List (Member Json) → Prop where
  | permuted {around : Nat} {shape : Shape} {members others : List (Member Json)} (hperm : members.Perm others) :
      MembersRelaid around shape members others
  | unknown {around : Nat} {shape : Shape} {members : List (Member Json)} {name : String} {value : Json}
      (hshape : shape ≠ .other) (hname : name ∉ shape.names) (hfits : value.Fits (around + 1)) :
      MembersRelaid around shape members (⟨some name, value⟩ :: members)
  | added {around : Nat} {shape : Shape} {members : List (Member Json)} {name : String} {value : Json}
      (hdefault : shape.default? name = some value) (habsent : ∀ member ∈ members, member.name ≠ some name) :
      MembersRelaid around shape members (⟨some name, value⟩ :: members)
  | dropped {around : Nat} {shape : Shape} {members : List (Member Json)} {name : String} {value : Json}
      (hdefault : shape.default? name = some value) :
      MembersRelaid around shape (⟨some name, value⟩ :: members) members
  | inside {around : Nat} {shape : Shape} {before behind : List (Member Json)} {name : Text} {value changed : Json}
      (hvalue : Relaid (around + 1) (name.elim .plain shape.role) value changed) :
      MembersRelaid around shape (before ++ ⟨name, value⟩ :: behind) (before ++ ⟨name, changed⟩ :: behind)

end

/-! ### What a change keeps -/

namespace Json

variable {around : Nat}

theorem itemsSound_iff {items : List Json} : itemsSound items = true ↔ ∀ item ∈ items, item.isSound = true := by
  induction items with
  | nil => simp [itemsSound]
  | cons item rest ih => simp [itemsSound, ih]

theorem membersSound_iff {members : List (Member Json)} :
    membersSound members = true ↔ ∀ member ∈ members, member.name.isSome = true ∧ member.value.isSound = true := by
  induction members with
  | nil => simp [membersSound]
  | cons member rest ih => simp [membersSound, ih]

/-- What is no array and no object fits wherever there is room for it. -/
theorem fits_of_flat {json : Json} (hsound : json.isSound = true) (hdepth : json.depth = 0)
    (haround : around ≤ depthLimit) : json.Fits around :=
  ⟨hsound, by rwa [hdepth, Nat.zero_add]⟩

/-- Some items are as deep as the deepest of them. -/
theorem itemsDepth_add_le {items : List Json} :
    itemsDepth items + 1 + around ≤ depthLimit ↔
      around + 1 ≤ depthLimit ∧ ∀ item ∈ items, item.depth + (around + 1) ≤ depthLimit := by
  constructor
  · intro hbound
    refine ⟨by omega, fun item hitem ↦ ?_⟩
    have hless := depth_le_itemsDepth hitem
    omega
  · rintro ⟨hroom, hitems⟩
    have hbound : itemsDepth items ≤ depthLimit - (around + 1) := by
      refine itemsDepth_le fun item hitem ↦ ?_
      have hitem' := hitems item hitem
      omega
    omega

/-- An array fits if there is room for it and all its items fit. -/
theorem fits_array {items : List Json} :
    Fits around (.array items) ↔ around + 1 ≤ depthLimit ∧ ∀ item ∈ items, item.Fits (around + 1) := by
  unfold Fits
  rw [isSound, depth, itemsSound_iff, itemsDepth_add_le, and_left_comm, ← forall₂_and]

/-- An object fits if there is room for it, all names have a content, and all values fit. -/
theorem fits_object {members : List (Member Json)} :
    Fits around (.object members) ↔
      around + 1 ≤ depthLimit ∧ ∀ member ∈ members, member.name.isSome = true ∧ member.value.Fits (around + 1) := by
  unfold Fits
  rw [isSound, depth, membersSound_iff, membersDepth_eq, itemsDepth_add_le, and_left_comm, List.forall_mem_map,
    ← forall₂_and]
  simp only [and_assoc]

end Json

/-- A value that stands for a member that is left out fits. -/
theorem Shape.fits_default {shape : Shape} {name : String} {value : Json} {around : Nat}
    (hdefault : shape.default? name = some value) (haround : around ≤ depthLimit) : value.Fits around := by
  have hzero : (Json.ofInt 0).isSound = true := isSound_ofInt (by decide)
  unfold default? at hdefault
  split at hdefault <;> cases hdefault
  · exact fits_of_flat hzero rfl haround
  · exact fits_of_flat hzero rfl haround
  · exact fits_of_flat rfl rfl haround

/-! ### What a change keeps of the members -/

namespace MembersRelaid

variable {around : Nat} {shape : Shape} {members others : List (Member Json)}

/-- Names with a content keep one. -/
theorem names (hmembers : MembersRelaid around shape members others)
    (hnames : ∀ member ∈ members, member.name.isSome = true) : ∀ member ∈ others, member.name.isSome = true := by
  cases hmembers with
  | permuted hperm => exact fun member hmember ↦ hnames member (hperm.mem_iff.mpr hmember)
  | unknown => exact List.forall_mem_cons.mpr ⟨rfl, hnames⟩
  | added => exact List.forall_mem_cons.mpr ⟨rfl, hnames⟩
  | dropped => exact (List.forall_mem_cons.mp hnames).2
  | inside =>
    simp only [List.forall_mem_append, List.forall_mem_cons] at hnames ⊢
    exact hnames

/-- Values that fit are replaced and joined by values that fit, if those that change inside do so. -/
theorem fits (hmembers : MembersRelaid around shape members others) (haround : around + 1 ≤ depthLimit)
    (hvalues : ∀ member ∈ members, member.value.Fits (around + 1))
    (hinside : ∀ member ∈ members, ∀ (role : Role) (changed : Json),
      Relaid (around + 1) role member.value changed → changed.Fits (around + 1)) :
    ∀ member ∈ others, member.value.Fits (around + 1) := by
  cases hmembers with
  | permuted hperm => exact fun member hmember ↦ hvalues member (hperm.mem_iff.mpr hmember)
  | unknown _ _ hfits => exact List.forall_mem_cons.mpr ⟨hfits, hvalues⟩
  | added hdefault _ => exact List.forall_mem_cons.mpr ⟨Shape.fits_default hdefault haround, hvalues⟩
  | dropped _ => exact (List.forall_mem_cons.mp hvalues).2
  | inside hvalue =>
    simp only [List.forall_mem_append, List.forall_mem_cons] at hvalues hinside ⊢
    exact ⟨hvalues.1, hinside.2.1 _ _ hvalue, hvalues.2.2⟩

end MembersRelaid

/-- A value that fits still does when it is laid out differently. -/
theorem Relaid.fits {around : Nat} {role : Role} {json changed : Json} (hrelaid : Relaid around role json changed)
    (hfits : json.Fits around) : changed.Fits around := by
  induction json using Json.induction generalizing around role changed with
  | null => cases hrelaid
  | boolean value => cases hrelaid
  | number value => cases hrelaid
  | text content => cases hrelaid
  | array items ih =>
    obtain ⟨haround, hitems⟩ := fits_array.mp hfits
    cases hrelaid with
    | item hitem =>
      refine fits_array.mpr ⟨haround, ?_⟩
      simp only [List.forall_mem_append, List.forall_mem_cons] at hitems ih ⊢
      exact ⟨hitems.1, ih.2.1 hitem hitems.2.1, hitems.2.2⟩
  | object members ih =>
    obtain ⟨haround, hmembers⟩ := fits_object.mp hfits
    cases hrelaid with
    | members hchange =>
      have hnames := hchange.names fun member hmember ↦ (hmembers member hmember).1
      have hvalues := hchange.fits haround (fun member hmember ↦ (hmembers member hmember).2)
        fun member hmember role changed hvalue ↦ ih member hmember hvalue (hmembers member hmember).2
      exact fits_object.mpr ⟨haround, fun member hmember ↦ ⟨hnames member hmember, hvalues member hmember⟩⟩

/-! ### Parts of changed records -/

/-- A part of a record is the same as before, or laid out differently, or it has a value that stands for it anyway and
comes along or goes. -/
inductive PartRelaid (around : Nat) (shape : Shape) (name : String) : Option Json → Option Json → Prop where
  | same (part : Option Json) : PartRelaid around shape name part part
  | inside {value changed : Json} (hvalue : Relaid (around + 1) (shape.role name) value changed) :
      PartRelaid around shape name (some value) (some changed)
  | added {value : Json} (hdefault : shape.default? name = some value) :
      PartRelaid around shape name none (some value)
  | dropped {value : Json} (hdefault : shape.default? name = some value) :
      PartRelaid around shape name (some value) none

section Parts

variable {members others : List (Member Json)} {member : Member Json} {name : String}

/-- A member with another name is no part. -/
theorem partOf?_cons_of_ne (hname : member.name ≠ some name) :
    partOf? (member :: members) name = partOf? members name := by
  simp [partOf?, hname]

/-- No member is found by a name that none has. -/
theorem filter_name_eq_nil :
    members.filter (fun member ↦ member.name == some name) = [] ↔ ∀ member ∈ members, member.name ≠ some name := by
  simp [List.filter_eq_nil_iff]

/-- A part is left out where no member has its name. -/
theorem partOf?_eq_some_none : partOf? members name = some none ↔ ∀ member ∈ members, member.name ≠ some name := by
  rw [← filter_name_eq_nil]
  unfold partOf?
  split <;> simp_all

/-- A part that is there is the only one with its name. -/
theorem partOf?_cons_eq_some {value : Json} {part : Option Json} :
    partOf? (⟨some name, value⟩ :: members) name = some part ↔
      partOf? members name = some none ∧ part = some value := by
  rw [partOf?_eq_some_none, ← filter_name_eq_nil]
  unfold partOf?
  rw [List.filter_cons_of_pos (by simp)]
  cases members.filter fun member ↦ member.name == some name <;> simp [eq_comm]

/-- Parts do not depend on the order of the members. -/
theorem partOf?_perm (hperm : members.Perm others) : partOf? members name = partOf? others name := by
  have hfound := hperm.filter fun member ↦ member.name == some name
  unfold partOf?
  generalize members.filter _ = first at hfound ⊢
  generalize others.filter _ = second at hfound ⊢
  match first, second, hfound with
  | [], _, hfound => rw [hfound.nil_eq]
  | [_], _, hfound => rw [hfound.singleton_eq]
  | _ :: _ :: _, [], hfound => cases hfound.length_eq
  | _ :: _ :: _, [_], hfound => cases hfound.length_eq
  | _ :: _ :: _, _ :: _ :: _, _ => rfl

end Parts

/-- Every part that is known is found again in a record that is laid out differently. -/
theorem MembersRelaid.exists_partOf? {around : Nat} {shape : Shape} {members others : List (Member Json)}
    {name : String} {part : Option Json} (hmembers : MembersRelaid around shape members others)
    (hknown : name ∈ shape.names) (hpart : partOf? members name = some part) :
    ∃ changed : Option Json, partOf? others name = some changed ∧ PartRelaid around shape name part changed := by
  cases hmembers with
  | permuted hperm => exact ⟨part, by rw [← partOf?_perm hperm, hpart], .same part⟩
  | @unknown _ _ _ unknown value hshape hunknown hfits =>
    have hname : (⟨some unknown, value⟩ : Member Json).name ≠ some name := by
      intro hsame
      rw [Option.some.inj hsame] at hunknown
      exact hunknown hknown
    exact ⟨part, by rw [partOf?_cons_of_ne hname, hpart], .same part⟩
  | @added _ _ _ default value hdefault habsent =>
    by_cases hname : default = name
    · subst hname
      have hnone := partOf?_eq_some_none.mpr habsent
      rw [hnone] at hpart
      obtain rfl := Option.some.inj hpart
      exact ⟨some value, partOf?_cons_eq_some.mpr ⟨hnone, rfl⟩, .added hdefault⟩
    · have hother : (⟨some default, value⟩ : Member Json).name ≠ some name := fun hsame ↦ hname (Option.some.inj hsame)
      exact ⟨part, by rw [partOf?_cons_of_ne hother, hpart], .same part⟩
  | @dropped _ _ _ default value hdefault =>
    by_cases hname : default = name
    · subst hname
      obtain ⟨hnone, rfl⟩ := partOf?_cons_eq_some.mp hpart
      exact ⟨none, hnone, .dropped hdefault⟩
    · have hother : (⟨some default, value⟩ : Member Json).name ≠ some name := fun hsame ↦ hname (Option.some.inj hsame)
      exact ⟨part, by rw [← hpart, partOf?_cons_of_ne hother], .same part⟩
  | @inside _ _ before behind own value changed hvalue =>
    rw [partOf?_perm List.perm_middle] at hpart ⊢
    by_cases hname : own = some name
    · subst hname
      obtain ⟨hnone, rfl⟩ := partOf?_cons_eq_some.mp hpart
      exact ⟨some changed, partOf?_cons_eq_some.mpr ⟨hnone, rfl⟩, .inside hvalue⟩
    · rw [partOf?_cons_of_ne hname] at hpart ⊢
      exact ⟨part, hpart, .same part⟩

end ScriptMachine
