import Mathlib.Tactic.IntervalCases
import ScriptMachine.Json.Reader
import ScriptMachine.Json.Writer

/-!
# Scanning what was written

The text of a JSON value consists of the tokens of the value (`Json.tokens`), and the scanner finds these tokens in it
(`Json.tokens?_renderChars`). A word or a number ends only at the character behind it, so what the scanner has read of
a value is complete in the sense of `Scanner.Holds`: it has all tokens as soon as the text ends or a token follows that
is a character by itself.

All this is about values whose numbers are integers (`Json.isIntegral`).
-/

set_option autoImplicit false
set_option relaxedAutoImplicit false

namespace ScriptMachine

namespace Json

/-! ### Induction on values -/

/-- A property that a value has as soon as all values in it have it holds for all values. -/
theorem induction {motive : Json → Prop} (null : motive .null) (boolean : ∀ value : Bool, motive (.boolean value))
    (number : ∀ value : Number, motive (.number value)) (text : ∀ content : Text, motive (.text content))
    (array : ∀ items : List Json, (∀ item ∈ items, motive item) → motive (.array items))
    (object : ∀ members : List (Member Json), (∀ member ∈ members, motive member.value) →
      motive (.object members))
    (json : Json) : motive json := by
  have ih : ∀ part : Json, sizeOf part < sizeOf json → motive part := fun part _ ↦
    Json.induction null boolean number text array object part
  cases json
  case null => exact null
  case boolean value => exact boolean value
  case number value => exact number value
  case text content => exact text content
  case array items =>
    refine array items fun item hitem ↦ ih item ?_
    have hsmaller := List.sizeOf_lt_of_mem hitem
    simp only [Json.array.sizeOf_spec]
    omega
  case object members =>
    refine object members fun member hmember ↦ ih member.value ?_
    have hsmaller := List.sizeOf_lt_of_mem hmember
    obtain ⟨name, value⟩ := member
    simp only [Json.object.sizeOf_spec, Member.mk.sizeOf_spec] at hsmaller ⊢
    omega
termination_by sizeOf json

/-! ### The tokens of a value -/

mutual

/-- The tokens of a value. -/
def tokens : Json → List Token
  | .null => [.null]
  | .boolean value => [.boolean value]
  | .number value => [.number value]
  | .text content => [.text content]
  | .array items => .openArray :: itemsTokens items ++ [.closeArray]
  | .object members => .openObject :: membersTokens members ++ [.closeObject]

/-- The tokens of the items of an array, with commas between them. -/
def itemsTokens : List Json → List Token
  | [] => []
  | item :: rest => tokens item ++ moreItemsTokens rest

/-- The tokens of further items of an array. -/
def moreItemsTokens : List Json → List Token
  | [] => []
  | item :: rest => .comma :: tokens item ++ moreItemsTokens rest

/-- The tokens of the members of an object, with commas between them. -/
def membersTokens : List (Member Json) → List Token
  | [] => []
  | member :: rest => .text member.name :: .colon :: tokens member.value ++ moreMembersTokens rest

/-- The tokens of further members of an object. -/
def moreMembersTokens : List (Member Json) → List Token
  | [] => []
  | member :: rest => .comma :: .text member.name :: .colon :: tokens member.value ++ moreMembersTokens rest

end

mutual

/-- Whether all numbers of a value are integers. -/
def isIntegral : Json → Bool
  | .number (.decimal _ _ _ _) => false
  | .array items => itemsIntegral items
  | .object members => membersIntegral members
  | _ => true

/-- Whether all numbers of some items are integers. -/
def itemsIntegral : List Json → Bool
  | [] => true
  | item :: rest => item.isIntegral && itemsIntegral rest

/-- Whether all numbers of some members are integers. -/
def membersIntegral : List (Member Json) → Bool
  | [] => true
  | member :: rest => member.value.isIntegral && membersIntegral rest

end

/-! ### What a scanner holds -/

namespace Scanner

/-- A scanner has read some tokens, the last one first: it has them if the text ends here, and goes on behind them at a
token that is a character by itself. -/
structure Holds (scanner : Scanner) (read : List Token) : Prop where
  settle : scanner.settle = some read
  step : ∀ (character : Char) (token : Token), punctuation? character = some token →
    scanner.step character = some ⟨token :: read, .between⟩

/-- A token that is a character by itself begins nothing else. -/
theorem begin_of_punctuation? {character : Char} {token : Token} (htoken : punctuation? character = some token)
    (read : List Token) : begin read character = some ⟨token :: read, .between⟩ := by
  unfold punctuation? at htoken
  split at htoken <;> first | cases htoken; rfl | cases htoken

theorem holds_between (read : List Token) : Holds ⟨read, .between⟩ read :=
  ⟨rfl, fun _ _ htoken ↦ begin_of_punctuation? htoken read⟩

/-- A word that is a token ends at a character that is no letter. -/
theorem holds_word {letters : List Char} {token : Token} (htoken : wordToken? letters.reverse = some token)
    (read : List Token) : Holds ⟨read, .word letters⟩ (token :: read) := by
  have hsettle : settle ⟨read, .word letters⟩ = some (token :: read) := by
    unfold settle
    dsimp only
    rw [htoken]
    rfl
  refine ⟨hsettle, fun character mark hmark ↦ ?_⟩
  have hletter : isLetter character = false := by
    unfold punctuation? at hmark
    split at hmark <;> first | rfl | cases hmark
  unfold Scanner.step
  dsimp only
  rw [hletter, hsettle]
  exact begin_of_punctuation? hmark _

/-- An integer ends at a character that is neither a digit nor a point nor a mark of an exponent. -/
theorem holds_number {phase : NumberPhase} (hphase : phase = .zero ∨ phase = .digits) (negative : Bool)
    (magnitude : Nat) (read : List Token) :
    Holds ⟨read, .number ⟨phase, negative, magnitude, [], false, 0⟩⟩
      (.number (.integer negative magnitude) :: read) := by
  have hsettle : settle ⟨read, .number ⟨phase, negative, magnitude, [], false, 0⟩⟩ =
      some (.number (.integer negative magnitude) :: read) := by
    rcases hphase with rfl | rfl <;> rfl
  refine ⟨hsettle, fun character mark hmark ↦ ?_⟩
  obtain ⟨hdigit, hnone⟩ : digitValue? character = none ∧
      NumberScan.takeMark? ⟨phase, negative, magnitude, [], false, 0⟩ character = none := by
    unfold punctuation? at hmark
    split at hmark <;> first | cases hmark; rcases hphase with rfl | rfl <;> exact ⟨rfl, rfl⟩ | cases hmark
  unfold Scanner.step
  dsimp only
  rw [hdigit]
  dsimp only
  rw [hnone, hsettle]
  exact begin_of_punctuation? hmark _

end Scanner

/-! ### Texts of tokens -/

/-- Some characters are the text of some tokens: a scanner that is between tokens finds these. -/
def Spells (characters : List Char) (tokens : List Token) : Prop :=
  ∀ read : List Token, ∃ scanner : Scanner,
    characters.foldlM Scanner.step ⟨read, .between⟩ = some scanner ∧ scanner.Holds (tokens.reverse ++ read)

namespace Spells

variable {characters more : List Char} {tokens others : List Token} {character : Char} {token : Token}

theorem nil : Spells [] [] :=
  fun read ↦ ⟨_, rfl, Scanner.holds_between read⟩

/-- A token that is a character by itself may come first. -/
theorem cons (htoken : punctuation? character = some token) (hspells : Spells characters tokens) :
    Spells (character :: characters) (token :: tokens) := by
  intro read
  obtain ⟨scanner, hscanned, hholds⟩ := hspells (token :: read)
  refine ⟨scanner, ?_, ?_⟩
  · rw [List.foldlM_cons, (Scanner.holds_between read).step _ _ htoken]
    exact hscanned
  · rw [List.reverse_cons, List.append_assoc]
    exact hholds

/-- Two texts may stand side by side if a token that is a character by itself lies between them. -/
theorem append_cons (hspells : Spells characters tokens) (htoken : punctuation? character = some token)
    (hmore : Spells more others) : Spells (characters ++ character :: more) (tokens ++ token :: others) := by
  intro read
  obtain ⟨scanner, hscanned, hholds⟩ := hspells read
  obtain ⟨last, hlast, hheld⟩ := hmore (token :: (tokens.reverse ++ read))
  refine ⟨last, ?_, ?_⟩
  · rw [List.foldlM_append, hscanned]
    show List.foldlM Scanner.step scanner (character :: more) = some last
    rw [List.foldlM_cons, hholds.step _ _ htoken]
    exact hlast
  · rw [List.reverse_append, List.reverse_cons, List.append_assoc, List.append_assoc]
    exact hheld

/-- A token that is a character by itself may come last. -/
theorem concat (hspells : Spells characters tokens) (htoken : punctuation? character = some token) :
    Spells (characters ++ [character]) (tokens ++ [token]) :=
  hspells.append_cons htoken nil

end Spells

/-! ### Numbers -/

/-- A digit is read back. -/
theorem digitValue?_digitChar {digit : Nat} (hdigit : digit < 10) : digitValue? digit.digitChar = some digit := by
  interval_cases digit <;> rfl

/-- The digits of a number are read to the number. -/
theorem scans_digits (magnitude : Nat) (scanner : Scanner) (negative : Bool)
    (hstart : ∀ digit : Nat, digit < 10 → scanner.step digit.digitChar =
      some ⟨scanner.reversed, .number (.ofDigit negative digit)⟩) :
    (Nat.toDigits 10 magnitude).foldlM Scanner.step scanner =
      some ⟨scanner.reversed,
        .number ⟨if magnitude = 0 then .zero else .digits, negative, magnitude, [], false, 0⟩⟩ := by
  induction magnitude using Nat.strongRecOn with
  | ind magnitude ih =>
    by_cases hsmall : magnitude < 10
    · rw [Nat.toDigits_of_lt_base hsmall, List.foldlM_cons, hstart magnitude hsmall]
      rfl
    · have hlarge : 10 ≤ magnitude := Nat.le_of_not_lt hsmall
      have hpositive : magnitude / 10 ≠ 0 := by omega
      have hdigit : magnitude % 10 < 10 := Nat.mod_lt _ (by decide)
      rw [Nat.toDigits_of_base_le (by decide) hlarge, List.foldlM_append, ih _ (by omega), if_neg hpositive,
        if_neg (by omega)]
      show List.foldlM Scanner.step _ [(magnitude % 10).digitChar] = _
      rw [List.foldlM_cons, Scanner.step]
      dsimp only
      rw [digitValue?_digitChar hdigit]
      dsimp only [NumberScan.takeDigit, Option.map]
      rw [show magnitude / 10 * 10 + magnitude % 10 = magnitude by omega]
      rfl

/-- An integer spells itself. -/
theorem spells_integer (negative : Bool) (magnitude : Nat) :
    Spells (renderNumber (.integer negative magnitude)) [.number (.integer negative magnitude)] := by
  intro read
  have hphase : (if magnitude = 0 then NumberPhase.zero else .digits) = .zero ∨
      (if magnitude = 0 then NumberPhase.zero else .digits) = .digits := by
    split <;> simp
  refine ⟨⟨read, .number ⟨if magnitude = 0 then .zero else .digits, negative, magnitude, [], false, 0⟩⟩, ?_,
    Scanner.holds_number hphase negative magnitude read⟩
  have hdigits : (toString magnitude).toList = Nat.toDigits 10 magnitude := Nat.toList_repr
  rw [renderNumber, hdigits]
  cases negative with
  | false =>
    refine scans_digits magnitude ⟨read, .between⟩ false fun digit hdigit ↦ ?_
    interval_cases digit <;> rfl
  | true =>
    refine scans_digits magnitude ⟨read, .number .ofSign⟩ true fun digit hdigit ↦ ?_
    interval_cases digit <;> rfl

/-! ### Strings -/

/-- A character below the space is read back from its number. -/
theorem scans_control {character : Char} (hcontrol : character < ' ') (read : List Token) (reversed : List Char) :
    List.foldlM Scanner.step ⟨read, .text ⟨.plain, reversed, none, false⟩⟩
        ['\\', 'u', '0', '0', hexDigit (character.toNat / 16), hexDigit (character.toNat % 16)] =
      some ⟨read, .text ⟨.plain, character :: reversed, none, false⟩⟩ := by
  obtain ⟨code, hcode, rfl⟩ : ∃ code : Nat, code < 32 ∧ character = Char.ofNat code :=
    ⟨character.toNat, hcontrol, character.ofNat_toNat.symm⟩
  interval_cases code <;> rfl

/-- A character of a string is read back from its escape. -/
theorem scans_escape (character : Char) (read : List Token) (reversed : List Char) :
    (escape character).foldlM Scanner.step ⟨read, .text ⟨.plain, reversed, none, false⟩⟩ =
      some ⟨read, .text ⟨.plain, character :: reversed, none, false⟩⟩ := by
  unfold escape
  split_ifs with hquote hbackslash hbackspace hfeed hnewline hreturn htab hcontrol
  case pos => subst hquote; rfl
  case pos => subst hbackslash; rfl
  case pos => subst hbackspace; rfl
  case pos => subst hfeed; rfl
  case pos => subst hnewline; rfl
  case pos => subst hreturn; rfl
  case pos => subst htab; rfl
  case pos => exact scans_control hcontrol read reversed
  case neg =>
    rw [List.foldlM_cons]
    unfold Scanner.step TextScan.step
    dsimp only
    rw [if_neg fun hboth ↦ hquote hboth.1, if_neg hbackslash, if_neg hcontrol]
    rfl

/-- A string is read back between its quotes. -/
theorem spells_string (content : String) : Spells (renderString content) [.text (some content)] := by
  have hcharacters : ∀ (characters reversed : List Char) (read : List Token),
      (characters.flatMap escape).foldlM Scanner.step ⟨read, .text ⟨.plain, reversed, none, false⟩⟩ =
        some ⟨read, .text ⟨.plain, characters.reverse ++ reversed, none, false⟩⟩ := by
    intro characters
    induction characters with
    | nil => exact fun _ _ ↦ rfl
    | cons character rest ih =>
      intro reversed read
      rw [List.flatMap_cons, List.foldlM_append, scans_escape, List.reverse_cons, List.append_assoc]
      exact ih (character :: reversed) read
  intro read
  refine ⟨⟨.text (some content) :: read, .between⟩, ?_, Scanner.holds_between _⟩
  rw [renderString, List.cons_append, List.foldlM_cons]
  show List.foldlM Scanner.step ⟨read, .text .start⟩ (content.toList.flatMap escape ++ ['"']) = _
  rw [List.foldlM_append, TextScan.start, hcharacters, List.append_nil]
  show some (Scanner.mk (.text (some (String.ofList content.toList.reverse.reverse)) :: read) .between) = _
  rw [List.reverse_reverse, String.ofList_toList]

/-- A string is read back, and half of a surrogate pair as a string without a content. -/
theorem spells_text (content : Text) : Spells (renderText content) [.text content] := by
  cases content with
  | some content => exact spells_string content
  | none => exact fun read ↦ ⟨⟨.text none :: read, .between⟩, rfl, Scanner.holds_between _⟩

/-! ### Values -/

/-- Further items of an array are spelled behind the first ones. -/
theorem spells_moreItems {items : List Json} (hitems : ∀ item ∈ items, Spells item.renderChars item.tokens)
    {characters : List Char} {first : List Token} (hfirst : Spells characters first) :
    Spells (characters ++ renderMoreItems items) (first ++ moreItemsTokens items) := by
  induction items generalizing characters first with
  | nil =>
    rw [renderMoreItems, moreItemsTokens, List.append_nil, List.append_nil]
    exact hfirst
  | cons item rest ih =>
    obtain ⟨hitem, hrest⟩ := List.forall_mem_cons.mp hitems
    have hcomma : punctuation? ',' = some .comma := rfl
    have hboth := ih hrest (hfirst.append_cons hcomma hitem)
    rw [renderMoreItems, moreItemsTokens]
    simp only [List.append_assoc, List.cons_append] at hboth ⊢
    exact hboth

/-- The items of an array are spelled with commas between them. -/
theorem spells_items {items : List Json} (hitems : ∀ item ∈ items, Spells item.renderChars item.tokens) :
    Spells (renderItems items) (itemsTokens items) := by
  cases items with
  | nil => exact .nil
  | cons item rest =>
    obtain ⟨hitem, hrest⟩ := List.forall_mem_cons.mp hitems
    exact spells_moreItems hrest hitem

/-- A member of an object is spelled with a colon between its name and its value. -/
theorem spells_member {member : Member Json} (hvalue : Spells member.value.renderChars member.value.tokens) :
    Spells (renderText member.name ++ ':' :: member.value.renderChars)
      (.text member.name :: .colon :: member.value.tokens) :=
  (spells_text member.name).append_cons rfl hvalue

/-- Further members of an object are spelled behind the first ones. -/
theorem spells_moreMembers {members : List (Member Json)}
    (hmembers : ∀ member ∈ members, Spells member.value.renderChars member.value.tokens)
    {characters : List Char} {first : List Token} (hfirst : Spells characters first) :
    Spells (characters ++ renderMoreMembers members) (first ++ moreMembersTokens members) := by
  induction members generalizing characters first with
  | nil =>
    rw [renderMoreMembers, moreMembersTokens, List.append_nil, List.append_nil]
    exact hfirst
  | cons member rest ih =>
    obtain ⟨hvalue, hrest⟩ := List.forall_mem_cons.mp hmembers
    have hcomma : punctuation? ',' = some .comma := rfl
    have hboth := ih hrest (hfirst.append_cons hcomma (spells_member hvalue))
    rw [renderMoreMembers, moreMembersTokens]
    simp only [List.append_assoc, List.cons_append] at hboth ⊢
    exact hboth

/-- The members of an object are spelled with commas between them. -/
theorem spells_members {members : List (Member Json)}
    (hmembers : ∀ member ∈ members, Spells member.value.renderChars member.value.tokens) :
    Spells (renderMembers members) (membersTokens members) := by
  cases members with
  | nil => exact .nil
  | cons member rest =>
    obtain ⟨hvalue, hrest⟩ := List.forall_mem_cons.mp hmembers
    have hboth := spells_moreMembers hrest (spells_member hvalue)
    rw [renderMembers, membersTokens]
    simp only [List.append_assoc, List.cons_append] at hboth ⊢
    exact hboth

/-- All items are integral if the list is. -/
theorem isIntegral_of_mem {items : List Json} (hitems : itemsIntegral items = true) :
    ∀ item ∈ items, item.isIntegral = true := by
  induction items with
  | nil => exact List.forall_mem_nil _
  | cons item rest ih =>
    rw [itemsIntegral, Bool.and_eq_true] at hitems
    exact List.forall_mem_cons.mpr ⟨hitems.1, ih hitems.2⟩

/-- The values of all members are integral if the list is. -/
theorem isIntegral_of_mem_members {members : List (Member Json)} (hmembers : membersIntegral members = true) :
    ∀ member ∈ members, member.value.isIntegral = true := by
  induction members with
  | nil => exact List.forall_mem_nil _
  | cons member rest ih =>
    rw [membersIntegral, Bool.and_eq_true] at hmembers
    exact List.forall_mem_cons.mpr ⟨hmembers.1, ih hmembers.2⟩

/-- The text of a value spells the tokens of the value. -/
theorem spells_renderChars (json : Json) (hintegral : json.isIntegral = true) :
    Spells json.renderChars json.tokens := by
  induction json using Json.induction with
  | null => exact fun read ↦ ⟨⟨read, .word ['l', 'l', 'u', 'n']⟩, rfl, Scanner.holds_word rfl read⟩
  | boolean value =>
    cases value with
    | true => exact fun read ↦ ⟨⟨read, .word ['e', 'u', 'r', 't']⟩, rfl, Scanner.holds_word rfl read⟩
    | false => exact fun read ↦ ⟨⟨read, .word ['e', 's', 'l', 'a', 'f']⟩, rfl, Scanner.holds_word rfl read⟩
  | number value =>
    cases value with
    | integer negative magnitude => exact spells_integer negative magnitude
    | decimal negative whole fraction exponent => cases hintegral
  | text content => exact spells_text content
  | array items ih =>
    have hitems := spells_items fun item hitem ↦ ih item hitem (isIntegral_of_mem hintegral item hitem)
    exact (hitems.cons rfl).concat rfl
  | object members ih =>
    have hmembers := spells_members fun member hmember ↦
      ih member hmember (isIntegral_of_mem_members hintegral member hmember)
    exact (hmembers.cons rfl).concat rfl

/-- The tokens of a written value are the tokens of the value. -/
theorem tokens?_renderChars {json : Json} (hintegral : json.isIntegral = true) :
    tokens? json.renderChars = some json.tokens := by
  obtain ⟨scanner, hscanned, hholds⟩ := json.spells_renderChars hintegral []
  unfold tokens? Scanner.start
  rw [hscanned]
  show scanner.settle.map List.reverse = some json.tokens
  rw [hholds.settle, List.append_nil]
  exact congrArg some (List.reverse_reverse _)

end Json

end ScriptMachine
