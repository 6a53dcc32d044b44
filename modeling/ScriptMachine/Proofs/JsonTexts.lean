import ScriptMachine.Proofs.JsonReading
import ScriptMachine.Proofs.JsonSpacing

/-!
# The texts of a value

The reader takes a token only where the value that it builds has that token next: what it has taken is what its open
arrays and objects have of their tokens (`Json.Reader.Took`). So it reads a value from nothing but the tokens of the
value (`Json.ofTokens?_eq_some_iff`), and a text says a value exactly if it is written with these tokens and any blanks
between them (`Json.parse?_eq_some_iff`).
-/

set_option autoImplicit false
set_option relaxedAutoImplicit false

namespace ScriptMachine

namespace Json

/-! ### What a reader has taken -/

/-- The comma in front of what comes next, if something came before. -/
def commaAfter {α : Type} (before : List α) : List Token :=
  if before.isEmpty then [] else [.comma]

@[simp] theorem commaAfter_nil {α : Type} : commaAfter ([] : List α) = [] :=
  rfl

@[simp] theorem commaAfter_cons {α : Type} (first : α) (rest : List α) : commaAfter (first :: rest) = [.comma] :=
  rfl

@[simp] theorem commaAfter_concat {α : Type} (before : List α) (last : α) :
    commaAfter (before ++ [last]) = [.comma] := by
  simp [commaAfter]

/-- Further items end with the tokens of the last one. -/
theorem moreItemsTokens_concat (items : List Json) (last : Json) :
    moreItemsTokens (items ++ [last]) = moreItemsTokens items ++ .comma :: last.tokens := by
  induction items with
  | nil => simp [moreItemsTokens]
  | cons item rest ih => simp [moreItemsTokens, ih]

/-- The items of an array end with the tokens of the last one. -/
theorem itemsTokens_concat (items : List Json) (last : Json) :
    itemsTokens (items ++ [last]) = itemsTokens items ++ commaAfter items ++ last.tokens := by
  cases items with
  | nil => simp [itemsTokens, moreItemsTokens]
  | cons item rest => simp [itemsTokens, moreItemsTokens_concat]

/-- Further members end with the tokens of the last one. -/
theorem moreMembersTokens_concat (members : List (Member Json)) (last : Member Json) :
    moreMembersTokens (members ++ [last]) =
      moreMembersTokens members ++ .comma :: .text last.name :: .colon :: last.value.tokens := by
  induction members with
  | nil => simp [moreMembersTokens]
  | cons member rest ih => simp [moreMembersTokens, ih]

/-- The members of an object end with the tokens of the last one. -/
theorem membersTokens_concat (members : List (Member Json)) (last : Member Json) :
    membersTokens (members ++ [last]) =
      membersTokens members ++ commaAfter members ++ .text last.name :: .colon :: last.value.tokens := by
  cases members with
  | nil => simp [membersTokens, moreMembersTokens]
  | cons member rest => simp [membersTokens, moreMembersTokens_concat]

/-- The tokens of an open array or object up to its next value. -/
def Frame.tokens : Frame → List Token
  | .array reversed => .openArray :: itemsTokens reversed.reverse ++ commaAfter reversed.reverse
  | .object reversed name =>
    .openObject :: membersTokens reversed.reverse ++ commaAfter reversed.reverse ++ [.text name, .colon]

/-- The tokens of some open arrays and objects up to the next value of the innermost one. -/
def framesTokens : List Frame → List Token
  | [] => []
  | frame :: outer => framesTokens outer ++ frame.tokens

namespace Reader

/-- A reader has taken some tokens. -/
inductive Took : Reader → List Token → Prop where
  | value (frames : List Frame) : Took ⟨frames, .value⟩ (framesTokens frames)
  | firstItem (outer : List Frame) : Took ⟨.array [] :: outer, .firstItem⟩ (framesTokens outer ++ [.openArray])
  | firstName (outer : List Frame) :
      Took ⟨.object [] none :: outer, .firstName⟩ (framesTokens outer ++ [.openObject])
  | name (outer : List Frame) (last : Member Json) (reversed : List (Member Json)) (name : Text) :
      Took ⟨.object (last :: reversed) name :: outer, .name⟩
        (framesTokens outer ++ .openObject :: membersTokens (last :: reversed).reverse ++ [.comma])
  | colon (outer : List Frame) (reversed : List (Member Json)) (name : Text) :
      Took ⟨.object reversed name :: outer, .colon⟩
        (framesTokens outer ++ .openObject :: membersTokens reversed.reverse ++ commaAfter reversed.reverse ++
          [.text name])
  | item (outer : List Frame) (last : Json) (reversed : List Json) :
      Took ⟨.array (last :: reversed) :: outer, .separator⟩
        (framesTokens outer ++ .openArray :: itemsTokens (last :: reversed).reverse)
  | member (outer : List Frame) (last : Member Json) (reversed : List (Member Json)) (name : Text) :
      Took ⟨.object (last :: reversed) name :: outer, .separator⟩
        (framesTokens outer ++ .openObject :: membersTokens (last :: reversed).reverse)
  | nothing (json : Json) : Took ⟨[], .nothing json⟩ json.tokens

variable {reader next : Reader} {frames : List Frame} {token : Token} {tokens : List Token}

/-- A complete value was taken with all its tokens. -/
theorem took_deliver (frames : List Frame) (json : Json) :
    (deliver frames json).Took (framesTokens frames ++ json.tokens) := by
  match frames with
  | [] => exact .nothing json
  | .array reversed :: outer =>
    have hitem := Took.item outer json reversed
    rw [List.reverse_cons, itemsTokens_concat] at hitem
    simpa [framesTokens, Frame.tokens, deliver] using hitem
  | .object reversed name :: outer =>
    have hmember := Took.member outer ⟨name, json⟩ reversed none
    rw [List.reverse_cons, membersTokens_concat] at hmember
    simpa [framesTokens, Frame.tokens, deliver] using hmember

/-- A token with which a value starts. -/
theorem took_takeValue (hnext : takeValue frames token = some next) : next.Took (framesTokens frames ++ [token]) := by
  cases token <;> simp only [takeValue, Option.some.injEq, reduceCtorEq] at hnext <;> subst hnext
  case null => exact took_deliver frames .null
  case boolean value => exact took_deliver frames (.boolean value)
  case number value => exact took_deliver frames (.number value)
  case text content => exact took_deliver frames (.text content)
  case openArray => exact .firstItem frames
  case openObject => exact .firstName frames

/-- The name of a member. -/
theorem took_takeName (outer : List Frame) (reversed : List (Member Json)) (old : Text)
    (hnext : takeName (.object reversed old :: outer) token = some next) :
    next.Took (framesTokens outer ++ .openObject :: membersTokens reversed.reverse ++ commaAfter reversed.reverse ++
      [token]) := by
  cases token <;> simp only [takeName, Option.some.injEq, reduceCtorEq] at hnext
  case text content =>
    subst hnext
    exact .colon outer reversed content

/-- The end of an array. -/
theorem took_closeArray (outer : List Frame) (reversed : List Json) :
    (deliver outer (.array reversed.reverse)).Took
      (framesTokens outer ++ .openArray :: itemsTokens reversed.reverse ++ [.closeArray]) := by
  simpa [Json.tokens] using took_deliver outer (.array reversed.reverse)

/-- The end of an object. -/
theorem took_closeObject (outer : List Frame) (reversed : List (Member Json)) :
    (deliver outer (.object reversed.reverse)).Took
      (framesTokens outer ++ .openObject :: membersTokens reversed.reverse ++ [.closeObject]) := by
  simpa [Json.tokens] using took_deliver outer (.object reversed.reverse)

/-- A reader takes one token at a time. -/
theorem Took.step (htook : reader.Took tokens) (hstep : reader.step token = some next) :
    next.Took (tokens ++ [token]) := by
  cases htook with
  | value frames => exact took_takeValue hstep
  | firstItem outer =>
    by_cases hclose : token = .closeArray
    · subst hclose
      obtain rfl := Option.some.inj hstep
      exact took_closeArray outer []
    · have hitem : takeValue (.array [] :: outer) token = some next := by
        cases token <;> first | exact hstep | exact absurd rfl hclose
      simpa [framesTokens, Frame.tokens, itemsTokens] using took_takeValue hitem
  | firstName outer =>
    by_cases hclose : token = .closeObject
    · subst hclose
      obtain rfl := Option.some.inj hstep
      exact took_closeObject outer []
    · have hname : takeName (.object [] none :: outer) token = some next := by
        cases token <;> first | exact hstep | exact absurd rfl hclose
      simpa [membersTokens] using took_takeName outer [] none hname
  | name outer last reversed old => simpa using took_takeName outer (last :: reversed) old hstep
  | colon outer reversed name =>
    cases token <;> simp only [Reader.step, Option.some.injEq, reduceCtorEq] at hstep
    subst hstep
    simpa [framesTokens, Frame.tokens] using Took.value (.object reversed name :: outer)
  | item outer last reversed =>
    cases token <;>
      simp only [Reader.step, separate, closeArray, closeObject, Option.some.injEq, reduceCtorEq] at hstep
    case comma =>
      subst hstep
      simpa [framesTokens, Frame.tokens] using Took.value (.array (last :: reversed) :: outer)
    case closeArray =>
      subst hstep
      exact took_closeArray outer (last :: reversed)
  | member outer last reversed name =>
    cases token <;>
      simp only [Reader.step, separate, closeArray, closeObject, Option.some.injEq, reduceCtorEq] at hstep
    case comma =>
      subst hstep
      exact .name outer last reversed name
    case closeObject =>
      subst hstep
      exact took_closeObject outer (last :: reversed)
  | nothing json => cases hstep

/-- What a reader takes adds up. -/
theorem Took.run (htook : reader.Took tokens) {more : List Token}
    (hrun : more.foldlM Reader.step reader = some next) : next.Took (tokens ++ more) := by
  induction more generalizing reader tokens with
  | nil =>
    obtain rfl := Option.some.inj hrun
    rwa [List.append_nil]
  | cons token rest ih =>
    rw [List.foldlM_cons] at hrun
    obtain ⟨middle, hstep, hrest⟩ := Option.bind_eq_some_iff.mp hrun
    rw [List.append_cons]
    exact ih (htook.step hstep) hrest

/-- A value was read from its own tokens. -/
theorem Took.eq_tokens (htook : reader.Took tokens) {json : Json} (hresult : reader.result? = some json) :
    tokens = json.tokens := by
  cases htook with
  | nothing _ => rw [Option.some.inj hresult]
  | _ => cases hresult

/-! ### Tokens apart -/

/-- What comes behind a word, a number or a string: nothing, or a token that is a character by itself. -/
def Closed (reader : Reader) : Prop :=
  reader.expectation = .colon ∨ reader.expectation = .separator ∨ ∃ json : Json, reader.expectation = .nothing json

theorem closed_deliver (frames : List Frame) (json : Json) : (deliver frames json).Closed := by
  match frames with
  | [] => exact .inr (.inr ⟨json, rfl⟩)
  | .array _ :: _ => exact .inr (.inl rfl)
  | .object _ _ :: _ => exact .inr (.inl rfl)

theorem isMark_of_closed (hclosed : reader.Closed) (hstep : reader.step token = some next) : token.isMark = true := by
  obtain ⟨frames, expectation⟩ := reader
  obtain rfl | rfl | ⟨json, rfl⟩ := hclosed <;> cases token <;> first | rfl | cases hstep

theorem closed_of_step (hplain : token.isMark = false) (hstep : reader.step token = some next) : next.Closed := by
  have htaken : takeValue reader.frames token = some next ∨ takeName reader.frames token = some next := by
    obtain ⟨frames, expectation⟩ := reader
    cases expectation <;> cases token <;>
      first | exact .inl hstep | exact .inr hstep | simp [step, Token.isMark] at hstep hplain
  rcases htaken with hvalue | hname
  · cases token <;> simp only [takeValue, Token.isMark, Option.some.injEq, reduceCtorEq] at hvalue hplain <;>
      subst hvalue <;> exact closed_deliver ..
  · unfold takeName at hname
    split at hname
    · split at hname
      · obtain rfl := Option.some.inj hname
        exact .inl rfl
      · cases hname
    · cases hname

end Reader

/-- A reader takes only tokens that are apart. -/
theorem apart_of_run {reader last : Reader} {tokens : List Token}
    (hrun : tokens.foldlM Reader.step reader = some last) : Apart tokens := by
  induction tokens generalizing reader with
  | nil => exact .nil
  | cons token rest ih =>
    rw [List.foldlM_cons] at hrun
    obtain ⟨next, hstep, hrest⟩ := Option.bind_eq_some_iff.mp hrun
    refine apart_cons.mpr ⟨fun second hsecond ↦ ?_, ih hrest⟩
    cases rest with
    | nil => cases hsecond
    | cons third others =>
      obtain rfl := Option.some.inj hsecond
      rw [List.foldlM_cons] at hrest
      obtain ⟨middle, hmiddle, -⟩ := Option.bind_eq_some_iff.mp hrest
      by_cases hmark : token.isMark = true
      · exact .inl hmark
      · rw [Bool.not_eq_true] at hmark
        exact .inr (Reader.isMark_of_closed (Reader.closed_of_step hmark hstep) hmiddle)

/-- The tokens of a value are apart. -/
theorem apart_tokens (json : Json) : Apart json.tokens :=
  apart_of_run (json.reads_tokens [])

/-! ### The texts of a value -/

/-- A value is read from its tokens and from no others. -/
theorem ofTokens?_eq_some_iff {tokens : List Token} {json : Json} :
    ofTokens? tokens = some json ↔ tokens = json.tokens := by
  constructor
  · intro hread
    obtain ⟨last, hrun, hresult⟩ := Option.bind_eq_some_iff.mp hread
    have htook := (Reader.Took.value []).run hrun
    exact htook.eq_tokens hresult
  · rintro rfl
    unfold ofTokens? Reader.start
    rw [json.reads_tokens]
    rfl

/-- A text is written for a value if it consists of the tokens of the value, with any blanks between them. -/
def WrittenAs (json : Json) (text : String) : Prop :=
  Spaced json.tokens text.toList

/-- A text says a value exactly if it is written for it. -/
theorem parse?_eq_some_iff {text : String} {json : Json} : parse? text = some json ↔ json.WrittenAs text := by
  unfold parse? WrittenAs
  rw [← tokens?_eq_some_iff json.apart_tokens, Option.bind_eq_some_iff]
  simp only [ofTokens?_eq_some_iff, exists_eq_right]

end Json

end ScriptMachine
