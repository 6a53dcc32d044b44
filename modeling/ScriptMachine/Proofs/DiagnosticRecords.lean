import ScriptMachine.Diagnostic.Record
import ScriptMachine.Proofs.TreeRoundTrip

/-!
# Records of diagnostics

The record of a diagnostic is one line of printable characters (`Json.printable_renderChars`), and as a JSON text it
says an object with just the members that the diagnostic has (`Diagnostic.Shows`). A diagnostic has no more than these
members (`Diagnostic.eq_of_members`), so that different diagnostics have different records
(`Diagnostic.toRecord_lossless`).
-/

set_option autoImplicit false
set_option relaxedAutoImplicit false

namespace ScriptMachine

/-! ### Printable texts -/

namespace Json

/-- Some characters are none of the control characters below the space. -/
def Printable (characters : List Char) : Prop :=
  ∀ character ∈ characters, ' '.toNat ≤ character.toNat

instance (characters : List Char) : Decidable (Printable characters) :=
  List.decidableBAll (fun character : Char ↦ ' '.toNat ≤ character.toNat) characters

@[simp] theorem printable_nil : Printable [] :=
  List.forall_mem_nil _

@[simp] theorem printable_cons {character : Char} {characters : List Char} :
    Printable (character :: characters) ↔ ' '.toNat ≤ character.toNat ∧ Printable characters :=
  List.forall_mem_cons

@[simp] theorem printable_append {first second : List Char} :
    Printable (first ++ second) ↔ Printable first ∧ Printable second :=
  List.forall_mem_append

/-- Decimal digits are printable. -/
theorem printable_toString (number : Nat) : Printable (toString number).toList := by
  intro character hmem
  have hdigit := Nat.isDigit_of_mem_toDigits (by decide) (Nat.le_refl 10) (Nat.toList_repr ▸ hmem)
  rw [Char.isDigit, Bool.and_eq_true, decide_eq_true_iff] at hdigit
  exact Nat.le_trans (by decide) hdigit.1

/-- An integer is printable. -/
theorem printable_integer (negative : Bool) (magnitude : Nat) :
    Printable (renderNumber (.integer negative magnitude)) := by
  rw [renderNumber, printable_append]
  exact ⟨by cases negative <;> decide, printable_toString magnitude⟩

/-- A character that is not printable is escaped. -/
theorem printable_escape (character : Char) : Printable (escape character) := by
  by_cases hcontrol : character.toNat < ' '.toNat
  · obtain ⟨code, hcode, rfl⟩ : ∃ code : Nat, code < 32 ∧ character = Char.ofNat code :=
      ⟨character.toNat, hcontrol, character.ofNat_toNat.symm⟩
    interval_cases code <;> decide
  · have hspace : ¬ character < ' ' := hcontrol
    have hprintable : 32 ≤ character.toNat := Nat.not_lt.mp hcontrol
    unfold escape
    split_ifs <;> simp [hprintable]

/-- A string between its quotes is printable, and so is half of a surrogate pair. -/
theorem printable_renderText (content : Text) : Printable (renderText content) := by
  cases content with
  | none =>
    have hhalf : renderText none = ['"', '\\', 'u', 'd', '8', '0', '0', '"'] := rfl
    rw [hhalf]
    decide
  | some content =>
    have hcontent : Printable (content.toList.flatMap escape) := by
      intro character hmem
      obtain ⟨escaped, -, hcharacter⟩ := List.mem_flatMap.mp hmem
      exact printable_escape escaped character hcharacter
    have hstring : renderText (some content) = '"' :: content.toList.flatMap escape ++ ['"'] := rfl
    rw [hstring, printable_append, printable_cons]
    exact ⟨⟨by decide, hcontent⟩, by decide⟩

/-- Further items of an array are printable if all of them are. -/
theorem printable_moreItems {items : List Json} (hitems : ∀ item ∈ items, Printable item.renderChars) :
    Printable (renderMoreItems items) := by
  induction items with
  | nil => exact printable_nil
  | cons item rest ih =>
    obtain ⟨hitem, hrest⟩ := List.forall_mem_cons.mp hitems
    rw [renderMoreItems, printable_append, printable_cons]
    exact ⟨⟨by decide, hitem⟩, ih hrest⟩

/-- Further members of an object are printable if all their values are. -/
theorem printable_moreMembers {members : List (Member Json)}
    (hmembers : ∀ member ∈ members, Printable member.value.renderChars) :
    Printable (renderMoreMembers members) := by
  induction members with
  | nil => exact printable_nil
  | cons member rest ih =>
    obtain ⟨hvalue, hrest⟩ := List.forall_mem_cons.mp hmembers
    rw [renderMoreMembers]
    simp only [printable_append, printable_cons]
    exact ⟨⟨⟨by decide, printable_renderText member.name⟩, by decide, hvalue⟩, ih hrest⟩

/-- The text of a value without decimals is printable. -/
theorem printable_renderChars (json : Json) (hintegral : json.isIntegral = true) : Printable json.renderChars := by
  induction json using Json.induction with
  | null => decide
  | boolean value => cases value <;> decide
  | number value =>
    cases value with
    | integer negative magnitude => exact printable_integer negative magnitude
    | decimal negative whole fraction exponent => cases hintegral
  | text content => exact printable_renderText content
  | array items ih =>
    have hitems : ∀ item ∈ items, Printable item.renderChars := fun item hitem ↦
      ih item hitem (isIntegral_of_mem hintegral item hitem)
    rw [renderChars, printable_append, printable_cons]
    refine ⟨⟨by decide, ?_⟩, by decide⟩
    cases items with
    | nil => exact printable_nil
    | cons item rest =>
      obtain ⟨hitem, hrest⟩ := List.forall_mem_cons.mp hitems
      exact printable_append.mpr ⟨hitem, printable_moreItems hrest⟩
  | object members ih =>
    have hmembers : ∀ member ∈ members, Printable member.value.renderChars := fun member hmember ↦
      ih member hmember (isIntegral_of_mem_members hintegral member hmember)
    rw [renderChars, printable_append, printable_cons]
    refine ⟨⟨by decide, ?_⟩, by decide⟩
    cases members with
    | nil => exact printable_nil
    | cons member rest =>
      obtain ⟨hvalue, hrest⟩ := List.forall_mem_cons.mp hmembers
      rw [renderMembers]
      simp only [printable_append, printable_cons]
      exact ⟨⟨printable_renderText member.name, by decide, hvalue⟩, printable_moreMembers hrest⟩

/-! ### Values of different things -/

theorem ofString_injective : Function.Injective ofString :=
  fun _ _ hsame ↦ Option.some.inj (Json.text.inj hsame)

theorem ofNat_injective : Function.Injective ofNat := by
  intro first second hsame
  have hnumbers := congrArg Number.toInt? (Json.number.inj hsame)
  rw [Number.toInt?_ofInt, Number.toInt?_ofInt] at hnumbers
  exact Int.ofNat.inj (Option.some.inj hnumbers)

theorem ofMembers_injective : Function.Injective ofMembers := by
  intro first second hsame
  refine List.map_injective_iff.mpr (fun left right hmember ↦ ?_) (Json.object.inj hsame)
  exact Prod.ext (Option.some.inj (Member.mk.inj hmember).1) (Member.mk.inj hmember).2

end Json

theorem Severity.name_injective : Function.Injective Severity.name := by
  intro first second hname
  cases first <;> cases second <;> first | rfl | exact absurd hname (by decide)

attribute [ext] Diagnostic

/-! ### Members of a record -/

namespace Diagnostic

open Json

/-- What a diagnostic has, as a name and a value: its severity, its message and the list of its notes, and of the code,
the line, the source and the suggestion those that are there. -/
inductive Shows (diagnostic : Diagnostic) : String → Json → Prop where
  | severity : Shows diagnostic "severity" (.ofString diagnostic.severity.name)
  | message : Shows diagnostic "message" (.ofString diagnostic.message)
  | notes : Shows diagnostic "notes" (.array (diagnostic.notes.map Json.ofString))
  | code {code : String} (hcode : diagnostic.code = some code) : Shows diagnostic "code" (.ofString code)
  | line {line : UInt32} (hline : diagnostic.line = some line) : Shows diagnostic "line" (.ofNat line.toNat)
  | source {source : String} (hsource : diagnostic.source = some source) : Shows diagnostic "source" (.ofString source)
  | suggestion {suggestion : String} (hsuggestion : diagnostic.suggestion = some suggestion) :
      Shows diagnostic "suggestion" (.ofString suggestion)

/-- A member of something that may be absent is there if that is. -/
theorem mem_optionalMember {α : Type} {name found : String} {write : α → Json} {value : Option α} {json : Json} :
    (found, json) ∈ optionalMember name write value ↔
      ∃ present : α, value = some present ∧ found = name ∧ json = write present := by
  cases value <;> simp [optionalMember]

/-- The members of a record are what the diagnostic has. -/
theorem mem_members_iff (diagnostic : Diagnostic) (name : String) (value : Json) :
    (name, value) ∈ diagnostic.members ↔ diagnostic.Shows name value := by
  unfold members
  simp only [List.mem_append, List.mem_cons, List.not_mem_nil, or_false, mem_optionalMember, Prod.mk.injEq]
  constructor
  · rintro ((((⟨code, hcode, rfl, rfl⟩ | ⟨line, hline, rfl, rfl⟩) | ⟨rfl, rfl⟩ | ⟨rfl, rfl⟩ | ⟨rfl, rfl⟩) |
      ⟨source, hsource, rfl, rfl⟩) | ⟨suggestion, hsuggestion, rfl, rfl⟩)
    · exact .code hcode
    · exact .line hline
    · exact .message
    · exact .notes
    · exact .severity
    · exact .source hsource
    · exact .suggestion hsuggestion
  · intro hshown
    cases hshown <;> simp [*]

/-- What may be absent has one member at most. -/
theorem names_optionalMember {α : Type} (name : String) (write : α → Json) (value : Option α) :
    ((optionalMember name write value).map Prod.fst).Sublist [name] := by
  cases value with
  | none => exact List.nil_sublist _
  | some present => exact List.Sublist.refl _

/-- No two members of a record have the same name. -/
theorem nodup_names (diagnostic : Diagnostic) : (diagnostic.members.map Prod.fst).Nodup := by
  have hnames : (diagnostic.members.map Prod.fst).Sublist
      ["code", "line", "message", "notes", "severity", "source", "suggestion"] := by
    unfold members
    simp only [List.map_append, List.map_cons, List.map_nil]
    exact ((((names_optionalMember _ _ _).append (names_optionalMember _ _ _)).append (List.Sublist.refl _)).append
      (names_optionalMember _ _ _)).append (names_optionalMember _ _ _)
  exact hnames.nodup (by decide)

/-- What a diagnostic has is a string, a small number, or a list of strings. -/
theorem Shows.induction {diagnostic : Diagnostic} {motive : Json → Prop}
    (string : ∀ content : String, motive (.ofString content))
    (integer : ∀ value : Int, value.natAbs < UInt64.size → motive (.ofInt value))
    (array : ∀ items : List Json, (∀ item ∈ items, motive item) → motive (.array items))
    {name : String} {value : Json} (hshown : diagnostic.Shows name value) : motive value := by
  cases hshown with
  | notes =>
    refine array _ fun item hitem ↦ ?_
    obtain ⟨note, -, rfl⟩ := List.mem_map.mp hitem
    exact string note
  | line hline => exact closed_lineJson integer _
  | _ => exact string _

/-- The numbers of a record are integers. -/
theorem isIntegral_members (diagnostic : Diagnostic) : (ofMembers diagnostic.members).isIntegral = true := by
  refine isIntegral_ofMembers fun member hmember ↦ ?_
  have hshown := (diagnostic.mem_members_iff member.1 member.2).mp hmember
  exact hshown.induction (motive := fun json ↦ json.isIntegral = true) (fun _ ↦ rfl) (fun _ _ ↦ rfl)
    fun _ hitems ↦ itemsIntegral_of_forall hitems

/-- A record is sound. -/
theorem isSound_members (diagnostic : Diagnostic) : (ofMembers diagnostic.members).isSound = true := by
  refine isSound_ofMembers fun member hmember ↦ ?_
  have hshown := (diagnostic.mem_members_iff member.1 member.2).mp hmember
  exact hshown.induction (motive := fun json ↦ json.isSound = true) (fun _ ↦ rfl) (fun _ hvalue ↦ isSound_ofInt hvalue)
    fun _ hitems ↦ itemsSound_of_forall hitems

/-- The record of a diagnostic says the object of its members. -/
theorem parse?_toRecord (diagnostic : Diagnostic) :
    parse? diagnostic.toRecord = some (ofMembers diagnostic.members) :=
  parse?_render diagnostic.isIntegral_members

/-! ### Diagnostics with the same record -/

/-- Every part of a diagnostic is found among the members by its name. -/
theorem lookup_members (diagnostic : Diagnostic) :
    diagnostic.members.lookup "severity" = some (ofString diagnostic.severity.name) ∧
      diagnostic.members.lookup "code" = diagnostic.code.map ofString ∧
      diagnostic.members.lookup "message" = some (ofString diagnostic.message) ∧
      diagnostic.members.lookup "line" = diagnostic.line.map (fun line ↦ ofNat line.toNat) ∧
      diagnostic.members.lookup "source" = diagnostic.source.map ofString ∧
      diagnostic.members.lookup "notes" = some (.array (diagnostic.notes.map ofString)) ∧
      diagnostic.members.lookup "suggestion" = diagnostic.suggestion.map ofString := by
  obtain ⟨severity, code, message, line, source, notes, suggestion⟩ := diagnostic
  cases code <;> cases line <;> cases source <;> cases suggestion <;>
    exact ⟨rfl, rfl, rfl, rfl, rfl, rfl, rfl⟩

/-- Diagnostics with the same members are the same. -/
theorem eq_of_members {first second : Diagnostic} (hmembers : first.members = second.members) : first = second := by
  have hleft := first.lookup_members
  rw [hmembers] at hleft
  obtain ⟨hseverity, hcode, hmessage, hline, hsource, hnotes, hsuggestion⟩ := hleft
  obtain ⟨hseverity', hcode', hmessage', hline', hsource', hnotes', hsuggestion'⟩ := second.lookup_members
  have hnames : first.severity.name = second.severity.name :=
    ofString_injective (Option.some.inj (hseverity.symm.trans hseverity'))
  have htexts : first.notes.map ofString = second.notes.map ofString :=
    Json.array.inj (Option.some.inj (hnotes.symm.trans hnotes'))
  ext1
  · exact Severity.name_injective hnames
  · exact Option.map_injective ofString_injective (hcode.symm.trans hcode')
  · exact ofString_injective (Option.some.inj (hmessage.symm.trans hmessage'))
  · exact Option.map_injective (fun _ _ hsame ↦ UInt32.toNat_inj.mp (ofNat_injective hsame)) (hline.symm.trans hline')
  · exact Option.map_injective ofString_injective (hsource.symm.trans hsource')
  · exact List.map_injective_iff.mpr ofString_injective htexts
  · exact Option.map_injective ofString_injective (hsuggestion.symm.trans hsuggestion')

/-- Records lose nothing. Diagnostics with the same record are the same. A record is a single line without control
characters, and as a JSON text it says an object of sound values, in which no two members have the same name, and which
has exactly the members that the diagnostic has. -/
theorem toRecord_lossless :
    Function.Injective toRecord ∧
      ∀ diagnostic : Diagnostic, (∀ character ∈ diagnostic.toRecord.toList, ' '.toNat ≤ character.toNat) ∧
        ∃ members : List (String × Json), parse? diagnostic.toRecord = some (ofMembers members) ∧
          (ofMembers members).isSound = true ∧ (members.map Prod.fst).Nodup ∧
          ∀ (name : String) (value : Json), (name, value) ∈ members ↔ diagnostic.Shows name value := by
  refine ⟨fun first second hsame ↦ ?_, fun diagnostic ↦ ⟨?_, diagnostic.members, diagnostic.parse?_toRecord,
    diagnostic.isSound_members, diagnostic.nodup_names, diagnostic.mem_members_iff⟩⟩
  · have hparsed := first.parse?_toRecord
    rw [hsame, second.parse?_toRecord] at hparsed
    exact eq_of_members (ofMembers_injective (Option.some.inj hparsed)).symm
  · rw [toRecord, render, String.toList_ofList]
    exact printable_renderChars _ diagnostic.isIntegral_members

end Diagnostic

end ScriptMachine
