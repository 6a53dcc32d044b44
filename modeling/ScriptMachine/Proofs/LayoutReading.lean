import Mathlib.Logic.Relation
import ScriptMachine.Proofs.JsonTexts
import ScriptMachine.Proofs.TreeLayouts

/-!
# Reading trees in any layout

A reader that reads something from a value reads the same from the value laid out differently (`Respects`). It does so
as soon as the readers of the parts do: each part is found again among the members, whatever order they come in and
whatever stands beside them (`MembersRelaid.keeps_required`), and one that may be left out is read to what stands for it
(`MembersRelaid.keeps_optional`). For nodes this goes by the form of the node and then by the room that is left for
nested ones, so that a text that is read as a script is read as this script in every layout of its value and with any
blanks between its tokens (`Script.reads_every_layout`).
-/

set_option autoImplicit false
set_option relaxedAutoImplicit false

namespace ScriptMachine

open Json

/-! ### Readings that are kept -/

/-- What one reading gives, another one gives as well. -/
def Keeps {α : Type} (first second : Option α) : Prop :=
  ∀ value : α, first = some value → second = some value

namespace Keeps

variable {α β : Type}

theorem refl (reading : Option α) : Keeps reading reading :=
  fun _ hvalue ↦ hvalue

theorem none (reading : Option α) : Keeps Option.none reading :=
  nofun

/-- Readings one after the other are kept if each of them is. -/
theorem bind {first second : Option α} {next other : α → Option β} (hfirst : Keeps first second)
    (hnext : ∀ value : α, Keeps (next value) (other value)) : Keeps (first >>= next) (second >>= other) := by
  intro result hresult
  obtain ⟨value, hvalue, hmore⟩ := Option.bind_eq_some_iff.mp hresult
  exact Option.bind_eq_some_iff.mpr ⟨value, hfirst value hvalue, hnext value result hmore⟩

end Keeps

/-- What is read from a value is read from it in any layout. -/
def Respects {α : Type} (around : Nat) (role : Role) (read : Json → Option α) : Prop :=
  ∀ ⦃json changed : Json⦄, Relaid around role json changed → Keeps (read json) (read changed)

/-! ### Plain parts -/

/-- A reader takes neither arrays nor objects. -/
structure Flat {α : Type} (read : Json → Option α) : Prop where
  array : ∀ items : List Json, read (.array items) = none
  object : ∀ members : List (Member Json), read (.object members) = none

section Plain

variable {α : Type} {read : Json → Option α} {around : Nat} {role : Role} {json changed : Json}

/-- What is neither an array nor an object has no other layout. -/
theorem Flat.not_relaid (hflat : Flat read) {value : α} (hread : read json = some value) :
    ¬ Relaid around role json changed := by
  intro hrelaid
  cases hrelaid with
  | members => cases (hflat.object _).symm.trans hread
  | item => cases (hflat.array _).symm.trans hread

theorem Flat.respects (hflat : Flat read) : Respects around role read :=
  fun _ _ hrelaid _ hread ↦ absurd hrelaid (hflat.not_relaid hread)

theorem flat_textOf? : Flat textOf? :=
  ⟨fun _ ↦ rfl, fun _ ↦ rfl⟩

theorem flat_flagOf? : Flat flagOf? :=
  ⟨fun _ ↦ rfl, fun _ ↦ rfl⟩

theorem flat_lineOf? : Flat lineOf? :=
  ⟨fun _ ↦ rfl, fun _ ↦ rfl⟩

theorem flat_integerOf? : Flat integerOf? :=
  ⟨fun _ ↦ rfl, fun _ ↦ rfl⟩

theorem flat_optionalTextOf? : Flat optionalTextOf? :=
  ⟨fun _ ↦ rfl, fun _ ↦ rfl⟩

/-- An object without known members stays as it is, if it has one member at most and the value of that does. -/
theorem MembersRelaid.eq_of_short {members others : List (Member Json)}
    (hmembers : MembersRelaid around .other members others) (hshort : members.length ≤ 1)
    (hvalues : ∀ member ∈ members, ∀ changed : Json,
      Relaid (around + 1) .plain member.value changed → changed = member.value) : others = members := by
  cases hmembers with
  | permuted hperm =>
    match members, hshort with
    | [], _ => exact hperm.nil_eq.symm
    | [_], _ => exact hperm.singleton_eq.symm
  | unknown hshape => exact absurd rfl hshape
  | added hdefault => cases hdefault
  | dropped hdefault => cases hdefault
  | @inside _ _ before behind name value changed hvalue =>
    have hplain : name.elim .plain Shape.other.role = .plain := by cases name <;> rfl
    rw [hplain] at hvalue
    rw [hvalues ⟨name, value⟩ (by simp) changed hvalue]

/-- The content of undefined stays as it is. -/
theorem eq_of_isNothing (hnothing : isNothing json = true) (hrelaid : Relaid around .plain json changed) :
    changed = json := by
  unfold isNothing at hnothing
  split at hnothing
  · cases hrelaid
  · cases hrelaid with
    | members hmembers => rw [MembersRelaid.eq_of_short hmembers (Nat.zero_le 1) (List.forall_mem_nil _)]
  · cases hnothing

/-- A literal has no other layout. -/
theorem respects_literalOf? : Respects around .plain literalOf? := by
  intro json changed hrelaid literal hread
  suffices hsame : changed = json by rw [hsame, hread]
  -- a literal is a text or has a single member
  have hsingle : ∀ {name : Text} {value : Json}, json = .object [⟨name, value⟩] →
      (∀ changed : Json, Relaid (around + 1) .plain value changed → changed = value) → changed = json := by
    rintro name value rfl hvalue
    cases hrelaid with
    | members hmembers =>
      exact congrArg Json.object
        (MembersRelaid.eq_of_short hmembers (Nat.le_refl 1) (List.forall_mem_singleton.mpr hvalue))
  unfold literalOf? at hread
  split at hread
  · cases hrelaid
  · obtain ⟨integer, hinteger, -⟩ := Option.map_eq_some_iff.mp hread
    exact hsingle rfl fun _ hvalue ↦ absurd hvalue (flat_integerOf?.not_relaid hinteger)
  · obtain ⟨content, hcontent, -⟩ := Option.map_eq_some_iff.mp hread
    exact hsingle rfl fun _ hvalue ↦ absurd hvalue (flat_textOf?.not_relaid hcontent)
  · obtain ⟨flag, hflag, -⟩ := Option.map_eq_some_iff.mp hread
    exact hsingle rfl fun _ hvalue ↦ absurd hvalue (flat_flagOf?.not_relaid hflag)
  · split_ifs at hread with hnothing
    exact hsingle rfl fun _ hvalue ↦ eq_of_isNothing hnothing hvalue
  · cases hread

/-- A list is read item by item. -/
theorem Respects.items (hread : Respects (around + 1) role read) : Respects around (.list role) (itemsOf? read) := by
  intro json changed hrelaid
  cases hrelaid with
  | members => exact .none _
  | item hitem =>
    unfold itemsOf?
    dsimp only
    rw [List.mapM_append, List.mapM_append, List.mapM_cons, List.mapM_cons]
    exact (Keeps.refl _).bind fun _ ↦ ((hread hitem).bind fun _ ↦ .refl _).bind fun _ ↦ .refl _

end Plain

/-! ### Parts of records -/

section Records

variable {α : Type} {read : Json → Option α} {around : Nat} {shape : Shape} {name : String}
  {members others : List (Member Json)}

/-- A part that has to be there is found and then read. -/
theorem required?_eq_bind (members : List (Member Json)) (name : String) (read : Json → Option α) :
    required? members name read = (partOf? members name).bind fun part ↦ part.bind read := by
  unfold required?
  rcases partOf? members name with _ | _ | json <;> rfl

/-- A part that may be left out is found and then read, or replaced. -/
theorem optional?_eq_bind (members : List (Member Json)) (name : String) (absent : α) (read : Json → Option α) :
    optional? members name absent read =
      (partOf? members name).bind fun part ↦ part.elim (some absent) read := by
  unfold optional?
  rcases partOf? members name with _ | _ | json <;> rfl

/-- What becomes of a part is kept if it is whatever becomes of the part. -/
theorem MembersRelaid.keeps_part (hmembers : MembersRelaid around shape members others) (hknown : name ∈ shape.names)
    {next : Option Json → Option α}
    (hnext : ∀ {part changed : Option Json}, PartRelaid around shape name part changed →
      Keeps (next part) (next changed)) :
    Keeps ((partOf? members name).bind next) ((partOf? others name).bind next) := by
  intro value hvalue
  obtain ⟨part, hpart, hmore⟩ := Option.bind_eq_some_iff.mp hvalue
  obtain ⟨changed, hfound, hrelaid⟩ := hmembers.exists_partOf? hknown hpart
  exact Option.bind_eq_some_iff.mpr ⟨changed, hfound, hnext hrelaid value hmore⟩

/-- A part that has to be there is kept. -/
theorem MembersRelaid.keeps_required (hmembers : MembersRelaid around shape members others)
    (hknown : name ∈ shape.names) (hdefault : shape.default? name = none)
    (hread : Respects (around + 1) (shape.role name) read) :
    Keeps (required? members name read) (required? others name read) := by
  rw [required?_eq_bind, required?_eq_bind]
  refine hmembers.keeps_part hknown fun hrelaid ↦ ?_
  cases hrelaid with
  | same => exact .refl _
  | inside hinside => exact hread hinside
  | added => exact .none _
  | dropped hpresent => cases hdefault.symm.trans hpresent

/-- A part that may be left out is kept, if the value that stands for it is read to the same. -/
theorem MembersRelaid.keeps_optional {absent : α} (hmembers : MembersRelaid around shape members others)
    (hknown : name ∈ shape.names) (hread : Respects (around + 1) (shape.role name) read)
    (hdefault : ∀ value : Json, shape.default? name = some value → read value = some absent) :
    Keeps (optional? members name absent read) (optional? others name absent read) := by
  rw [optional?_eq_bind, optional?_eq_bind]
  refine hmembers.keeps_part hknown fun hrelaid ↦ ?_
  cases hrelaid with
  | same => exact .refl _
  | inside hinside => exact hread hinside
  | added hpresent =>
    rw [Option.elim_some, hdefault _ hpresent]
    exact .refl _
  | dropped hpresent =>
    rw [Option.elim_some, hdefault _ hpresent]
    exact .refl _

/-- A part is read by every reader that reads what another one does. -/
theorem required?_mono {other : Json → Option α} {value : α}
    (hreaders : ∀ (json : Json) (value : α), read json = some value → other json = some value)
    (hvalue : required? members name read = some value) : required? members name other = some value := by
  rw [required?_eq_bind] at hvalue ⊢
  obtain ⟨part, hpart, hmore⟩ := Option.bind_eq_some_iff.mp hvalue
  obtain ⟨json, hjson, hread⟩ := Option.bind_eq_some_iff.mp hmore
  exact Option.bind_eq_some_iff.mpr ⟨part, hpart, Option.bind_eq_some_iff.mpr ⟨json, hjson, hreaders json value hread⟩⟩

/-- The line of a record is kept. -/
theorem MembersRelaid.keeps_line (hmembers : MembersRelaid around shape members others)
    (hknown : "line" ∈ shape.names)
    (hdefault : ∀ value : Json, shape.default? "line" = some value → value = .ofNat 0) :
    Keeps (recordLine? members) (recordLine? others) := by
  refine hmembers.keeps_optional hknown flat_lineOf?.respects fun value hpresent ↦ ?_
  rw [hdefault value hpresent]
  exact lineOf?_lineJson 0

/-- The parts of an array are laid out differently if an item is, in a way that its part allows. -/
theorem membersRelaid_zip {names : List String} {before behind : List Json} {item changed : Json}
    (hposition : before.length < names.length)
    (hitem : Relaid (around + 1) (names[before.length]?.elim .plain shape.role) item changed) :
    MembersRelaid around shape ((names.zip (before ++ item :: behind)).map fun part ↦ ⟨some part.1, part.2⟩)
      ((names.zip (before ++ changed :: behind)).map fun part ↦ ⟨some part.1, part.2⟩) := by
  obtain ⟨first, name, last, rfl, hlength⟩ : ∃ (first : List String) (name : String) (last : List String),
      names = first ++ name :: last ∧ first.length = before.length :=
    ⟨names.take before.length, names[before.length], names.drop (before.length + 1), by simp, by simp; omega⟩
  rw [← hlength, List.getElem?_append_right (Nat.le_refl _), Nat.sub_self] at hitem
  rw [List.zip_append hlength, List.zip_append hlength, List.zip_cons_cons, List.zip_cons_cons, List.map_append,
    List.map_append, List.map_cons, List.map_cons]
  exact .inside hitem

/-- The parts of a record that is an array are laid out differently if an item is, in a way that its part allows. -/
theorem exists_recordOf?_array {names : List String} {lastOptional : Bool} {before behind : List Json}
    {item changed : Json}
    (hitem : Relaid (around + 1) (names[before.length]?.elim .plain shape.role) item changed)
    (hrecord : recordOf? names lastOptional (.array (before ++ item :: behind)) = some members) :
    ∃ others : List (Member Json),
      recordOf? names lastOptional (.array (before ++ changed :: behind)) = some others ∧
        MembersRelaid around shape members others := by
  unfold recordOf? at hrecord ⊢
  dsimp only at hrecord ⊢
  have hlength : (before ++ item :: behind).length = (before ++ changed :: behind).length := by simp
  rw [hlength] at hrecord
  split_ifs at hrecord ⊢ with hcount
  obtain rfl := Option.some.inj hrecord
  refine ⟨_, rfl, membersRelaid_zip ?_ hitem⟩
  simp only [List.length_append, List.length_cons] at hcount
  omega

/-- A record is kept if what becomes of its parts is, in whatever order they come. -/
theorem Relaid.keeps_record (shape : Shape) {role : Role} {names : List String} {lastOptional : Bool}
    {json changed : Json} (hrelaid : Relaid around role json changed)
    (hshape : ∀ members : List (Member Json), role.shape (.object members) = shape)
    (hitem : ∀ (items : List Json) (position : Nat),
      role.item items position = names[position]?.elim .plain shape.role)
    {next other : List (Member Json) → Option α}
    (hnext : ∀ {members others : List (Member Json)}, MembersRelaid around shape members others →
      Keeps (next members) (other others)) :
    Keeps (recordOf? names lastOptional json >>= next) (recordOf? names lastOptional changed >>= other) := by
  intro value hvalue
  obtain ⟨members, hrecord, hmore⟩ := Option.bind_eq_some_iff.mp hvalue
  cases hrelaid with
  | members hmembers =>
    obtain rfl := Option.some.inj hrecord
    rw [hshape] at hmembers
    exact hnext hmembers value hmore
  | item hinside =>
    rw [hitem] at hinside
    obtain ⟨others, hothers, hmembers⟩ := exists_recordOf?_array hinside hrecord
    exact Option.bind_eq_some_iff.mpr ⟨others, hothers, hnext hmembers value hmore⟩

end Records

/-! ### Blocks, fields and nodes -/

section Nodes

variable {read : Json → Option Node} {around : Nat}

/-- A block is read in any layout. -/
theorem Respects.block (hread : Respects (around + 2) .node read) : Respects around .block (blockOf? read) := by
  intro json changed hrelaid
  refine hrelaid.keeps_record .block (fun _ ↦ rfl) (fun _ _ ↦ rfl) fun hmembers ↦ .bind ?_ fun _ ↦
    .bind ?_ fun _ ↦ .refl _
  · exact hmembers.keeps_required (by decide) rfl hread.items
  · exact hmembers.keeps_line (by decide) fun value hdefault ↦ (Option.some.inj hdefault).symm

/-- A field of an object literal is read in any layout. -/
theorem Respects.field (hread : Respects (around + 1) .node read) : Respects around .field (fieldOf? read) := by
  intro json changed hrelaid
  refine hrelaid.keeps_record .field (fun _ ↦ rfl) (fun _ _ ↦ rfl) fun hmembers ↦ .bind ?_ fun _ ↦
    .bind ?_ fun _ ↦ .refl _
  · exact hmembers.keeps_required (by decide) rfl flat_textOf?.respects
  · exact hmembers.keeps_required (by decide) rfl hread

/-- The parts of a node are read in any layout. -/
theorem MembersRelaid.keeps_parts {kind : NodeKind} {members others : List (Member Json)}
    (hmembers : MembersRelaid around (.node kind) members others) (hread : ∀ around : Nat, Respects around .node read) :
    Keeps (partsOf? read members kind) (partsOf? read others kind) := by
  have hline : Keeps (recordLine? members) (recordLine? others) := by
    refine hmembers.keeps_line ?_ fun value hdefault ↦ ?_
    · cases kind <;> decide
    · cases kind <;> exact (Option.some.inj hdefault).symm
  -- the parts in which nodes lie, and the others
  have hnode := hread (around + 1)
  have hnodes : Respects (around + 1) (.list .node) (itemsOf? read) := (hread (around + 2)).items
  have hblock : Respects (around + 1) .block (blockOf? read) := (hread (around + 3)).block
  have hfields : Respects (around + 1) (.list .field) (itemsOf? (fieldOf? read)) := (hread (around + 3)).field.items
  have htexts : Respects (around + 1) (.list .plain) (itemsOf? textOf?) := flat_textOf?.respects.items
  have htext : ∀ role : Role, Respects (around + 1) role textOf? := fun _ ↦ flat_textOf?.respects
  have hlast : ∀ make : UInt32 → Node,
      Keeps (do return make (← recordLine? members)) (do return make (← recordLine? others)) :=
    fun make ↦ hline.bind fun _ ↦ .refl _
  cases kind <;> dsimp only [partsOf?]
  case block => exact .bind (hmembers.keeps_required (by decide) rfl hnodes) fun _ ↦ hlast _
  case literal => exact .bind (hmembers.keeps_required (by decide) rfl respects_literalOf?) fun _ ↦ hlast _
  case call =>
    exact .bind (hmembers.keeps_required (by decide) rfl hnode) fun _ ↦
      .bind (hmembers.keeps_required (by decide) rfl hnodes) fun _ ↦ hlast _
  case access => exact .bind (hmembers.keeps_required (by decide) rfl (htext _)) fun _ ↦ hlast _
  case assignment =>
    exact .bind (hmembers.keeps_required (by decide) rfl (htext _)) fun _ ↦
      .bind (hmembers.keeps_required (by decide) rfl hnode) fun _ ↦
        .bind (hmembers.keeps_required (by decide) rfl flat_flagOf?.respects) fun _ ↦ hlast _
  case function =>
    refine .bind (hmembers.keeps_optional (by decide) flat_optionalTextOf?.respects fun value hdefault ↦ ?_) fun _ ↦
      .bind (hmembers.keeps_required (by decide) rfl htexts) fun _ ↦
        .bind (hmembers.keeps_required (by decide) rfl hblock) fun _ ↦ hlast _
    obtain rfl := Option.some.inj hdefault
    rfl
  case ret => exact .bind (hmembers.keeps_required (by decide) rfl hnode) fun _ ↦ hlast _
  case conditional =>
    exact .bind (hmembers.keeps_required (by decide) rfl hnode) fun _ ↦
      .bind (hmembers.keeps_required (by decide) rfl hblock) fun _ ↦
        .bind (hmembers.keeps_required (by decide) rfl hblock) fun _ ↦ hlast _
  case object => exact .bind (hmembers.keeps_required (by decide) rfl hfields) fun _ ↦ hlast _
  case fieldAccess =>
    exact .bind (hmembers.keeps_required (by decide) rfl hnode) fun _ ↦
      .bind (hmembers.keeps_required (by decide) rfl (htext _)) fun _ ↦ hlast _
  case fieldAssignment =>
    exact .bind (hmembers.keeps_required (by decide) rfl hnode) fun _ ↦
      .bind (hmembers.keeps_required (by decide) rfl (htext _)) fun _ ↦
        .bind (hmembers.keeps_required (by decide) rfl hnode) fun _ ↦ hlast _
  case methodCall =>
    exact .bind (hmembers.keeps_required (by decide) rfl hnode) fun _ ↦
      .bind (hmembers.keeps_required (by decide) rfl (htext _)) fun _ ↦
        .bind (hmembers.keeps_required (by decide) rfl hnodes) fun _ ↦ hlast _

/-- A node is read in any layout as soon as all nodes in it are. -/
theorem Respects.node {kindOf : Json → Option NodeKind}
    (hkind : ∀ (json : Json) (kind : NodeKind), kindOf json = some kind → anyKind? json = some kind)
    (hread : ∀ around : Nat, Respects around .node read) : Respects around .node (nodeOf? kindOf read) := by
  have hflat : Flat kindOf := by
    constructor <;>
      exact fun _ ↦ Option.eq_none_iff_forall_ne_some.mpr fun kind hfound ↦ nomatch hkind _ kind hfound
  intro json changed hrelaid node hnode
  cases hrelaid with
  | @members _ _ members others hmembers =>
    obtain ⟨kind, hfound, hparts⟩ := Option.bind_eq_some_iff.mp hnode
    have hshape : Role.node.shape (.object members) = .node kind := by
      simp only [Role.shape, required?_mono hkind hfound, Option.map_some, Option.getD_some]
    rw [hshape] at hmembers
    refine Option.bind_eq_some_iff.mpr ⟨kind, ?_, hmembers.keeps_parts hread node hparts⟩
    exact hmembers.keeps_required (List.mem_cons_self ..) (by cases kind <;> rfl) hflat.respects kind hfound
  | @item _ _ before behind item changed hinside =>
    cases before with
    | nil =>
      obtain ⟨kind, hfound, -⟩ := Option.bind_eq_some_iff.mp hnode
      exact absurd hinside (hflat.not_relaid hfound)
    | cons first rest =>
      obtain ⟨kind, hfound, hmore⟩ := Option.bind_eq_some_iff.mp hnode
      obtain ⟨members, hrecord, hparts⟩ := Option.bind_eq_some_iff.mp hmore
      have hshape : Role.node.shape (.array (first :: rest ++ item :: behind)) = .node kind := by
        simp only [Role.shape, List.cons_append, hkind first kind hfound, Option.map_some, Option.getD_some]
      have hpart : Relaid (around + 1) (kind.parts[rest.length]?.elim .plain (Shape.node kind).role) item changed := by
        simpa only [Role.item, hshape, Shape.names, List.length_cons, List.getElem?_cons_succ] using hinside
      obtain ⟨others, hothers, hmembers⟩ := exists_recordOf?_array hpart hrecord
      exact Option.bind_eq_some_iff.mpr ⟨kind, hfound, Option.bind_eq_some_iff.mpr
        ⟨others, hothers, hmembers.keeps_parts hread node hparts⟩⟩

/-- A nested node is read in any layout, whatever room there is. -/
theorem respects_nestedNode? (levels : Nat) : ∀ around : Nat, Respects around .node (nestedNode? levels) := by
  induction levels with
  | zero => exact fun _ _ _ _ ↦ .none _
  | succ levels ih => exact fun _ ↦ Respects.node (fun _ _ hfound ↦ hfound) ih

/-- A node that is given by name is given by name or by number. -/
theorem anyKind?_of_namedKind? {json : Json} {kind : NodeKind} (hfound : namedKind? json = some kind) :
    anyKind? json = some kind := by
  cases json with
  | number value => cases hfound
  | _ => exact hfound

/-- An outermost node is read in any layout. -/
theorem respects_outerNode? : Respects outerDepth .node outerNode? := by
  intro json changed hrelaid node hnode
  unfold outerNode? at hnode ⊢
  split_ifs at hnode with hfits
  have hchanged : changed.Fits outerDepth := hrelaid.fits hfits
  rw [if_pos ⟨hchanged.1, hchanged.2⟩]
  exact Respects.node (fun _ _ ↦ anyKind?_of_namedKind?) (respects_nestedNode? depthLimit) hrelaid node hnode

end Nodes

/-! ### Scripts -/

/-- Names with a content keep one when a value is laid out differently. -/
theorem Relaid.namesSound {around : Nat} {role : Role} {json changed : Json} (hrelaid : Relaid around role json changed)
    (hnames : namesSound json = true) : namesSound changed = true := by
  cases hrelaid with
  | members hmembers => exact List.all_eq_true.mpr (hmembers.names (List.all_eq_true.mp hnames))
  | item => rfl

namespace Script

/-- A script is read from its value in any layout. -/
theorem respects_ofJson? : Respects 0 .script ofJson? := by
  have hbody : Respects 1 .block fun body ↦ if namesSound body then blockOf? outerNode? body else none := by
    intro json changed hrelaid body hread
    dsimp only at hread ⊢
    split_ifs at hread with hnames
    rw [if_pos (hrelaid.namesSound hnames)]
    exact respects_outerNode?.block hrelaid body hread
  intro json changed hrelaid
  refine hrelaid.keeps_record .script (fun _ ↦ rfl) (fun _ _ ↦ rfl) fun hmembers ↦ .bind ?_ fun body script hscript ↦ ?_
  · exact hmembers.keeps_required (by decide) rfl hbody
  · split_ifs at hscript with hnames
    rw [if_pos (hrelaid.namesSound hnames)]
    exact hscript

/-- Reading a script does not depend on the layout of its text. A text that is read as a script is written for a value,
with any blanks between the tokens. The value may be laid out differently any number of times: members come in another
order, members that are not known come along, and lines that are zero and missing names of functions come along or go.
Every text that is written for the result, again with any blanks, is read as the same script. -/
theorem reads_every_layout {text : String} {script : Script} (hread : ofText? text = some script) :
    (∃ json : Json, json.WrittenAs text) ∧
      ∀ (json changed : Json) (other : String), json.WrittenAs text →
        Relation.ReflTransGen (Relaid 0 .script) json changed → changed.WrittenAs other →
          ofText? other = some script := by
  obtain ⟨own, hparsed, hown⟩ := Option.bind_eq_some_iff.mp hread
  refine ⟨⟨own, parse?_eq_some_iff.mp hparsed⟩, fun json changed other hwritten hrelaid hother ↦ ?_⟩
  have hjson : ofJson? json = some script := by
    rw [parse?_eq_some_iff.mpr hwritten] at hparsed
    rw [Option.some.inj hparsed, hown]
  have hchanged : ofJson? changed = some script := by
    clear hother
    induction hrelaid with
    | refl => exact hjson
    | tail _ hstep ih => exact respects_ofJson? hstep script ih
  exact Option.bind_eq_some_iff.mpr ⟨changed, parse?_eq_some_iff.mpr hother, hchanged⟩

/-- A script that reads a variable, and its text with the form of the node behind a remark and the name, without the
lines, and with a blank in front. -/
theorem reads_rearranged_text :
    ofText? (toText ⟨⟨[.access "x" 0], 0⟩⟩) = some ⟨⟨[.access "x" 0], 0⟩⟩ ∧
      ofText? (String.ofList (' ' :: renderChars (ofMembers [("body", ofMembers [("instrs", .array [ofMembers
        [("remark", .null), ("name", ofString "x"), ("kind", ofString "LocalVarAccess")]])])]))) =
          some ⟨⟨[.access "x" 0], 0⟩⟩ := by
  have hread : ofText? (toText ⟨⟨[.access "x" 0], 0⟩⟩) = some ⟨⟨[.access "x" 0], 0⟩⟩ := by
    rw [ofText?, parse?_toText]
    exact (ofJson?_toJson _).trans (if_pos (by decide))
  -- changes of the body, and of the node in its list
  have hbody : ∀ {members others : List (Member Json)}, MembersRelaid 1 .block members others →
      Relaid 0 .script (ofMembers [("body", .object members)]) (ofMembers [("body", .object others)]) :=
    fun hmembers ↦ .members (@MembersRelaid.inside 0 .script [] [] (some "body") _ _ (.members hmembers))
  have hnode : ∀ {members others : List (Member Json)} {behind : List (Member Json)},
      MembersRelaid 3 (Role.node.shape (.object members)) members others →
        Relaid 0 .script (ofMembers [("body", .object (⟨some "instrs", .array [.object members]⟩ :: behind))])
          (ofMembers [("body", .object (⟨some "instrs", .array [.object others]⟩ :: behind))]) :=
    fun hmembers ↦ hbody (@MembersRelaid.inside 1 .block [] _ (some "instrs") _ _
      (@Relaid.item 2 (.list .node) [] [] _ _ (.members hmembers)))
  have hrelaid : Relation.ReflTransGen (Relaid 0 .script) (toJson ⟨⟨[.access "x" 0], 0⟩⟩)
      (ofMembers [("body", ofMembers [("instrs", .array [ofMembers
        [("remark", .null), ("name", ofString "x"), ("kind", ofString "LocalVarAccess")]])])]) := by
    refine .head (hnode (.permuted (List.reverse_perm _).symm)) ?_
    refine .head (hnode (.dropped rfl)) ?_
    refine .head (hnode (@MembersRelaid.unknown _ _ _ "remark" .null (by decide) (by decide) ⟨rfl, by decide⟩)) ?_
    refine .head (hbody (.permuted (List.reverse_perm _).symm)) ?_
    exact .single (hbody (.dropped rfl))
  refine ⟨hread, (reads_every_layout hread).2 _ _ _ (parse?_eq_some_iff.mp (parse?_toText _)) hrelaid ?_⟩
  unfold WrittenAs
  rw [String.toList_ofList]
  refine .blank rfl ((tokens?_eq_some_iff (apart_tokens _)).mp (tokens?_renderChars ?_))
  rfl

end Script

end ScriptMachine
