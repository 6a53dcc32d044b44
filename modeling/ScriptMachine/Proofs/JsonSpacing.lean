import Mathlib.Data.List.Chain
import ScriptMachine.Proofs.JsonScanning

/-!
# Blanks between tokens

A text consists of some tokens if each of them stands in it in turn, with any number of blanks before, between and
behind them (`Json.Spaced`). As long as no two words, numbers or strings follow one another (`Json.Apart`), the scanner
finds some tokens in a text exactly if the text consists of them (`Json.tokens?_eq_some_iff`). So blanks between tokens
make no difference to it.

One direction is by induction on how the text is composed. The other one goes through the text character by character,
from between two tokens and from inside a word, a number or a string alike (`Json.Composed`).
-/

set_option autoImplicit false
set_option relaxedAutoImplicit false

namespace ScriptMachine

namespace Json

/-- Whether a token is a character by itself. -/
def Token.isMark : Token → Bool
  | .null | .boolean _ | .number _ | .text _ => false
  | .openArray | .closeArray | .openObject | .closeObject | .comma | .colon => true

/-- A text consists of some tokens, each of which is a character or a piece that has this token only, with blanks
anywhere around them. -/
inductive Spaced : List Token → List Char → Prop where
  | nil : Spaced [] []
  | blank {tokens : List Token} {character : Char} {characters : List Char} (hblank : isBlank character = true)
      (hrest : Spaced tokens characters) : Spaced tokens (character :: characters)
  | mark {token : Token} {tokens : List Token} {character : Char} {characters : List Char}
      (hmark : punctuation? character = some token) (hrest : Spaced tokens characters) :
      Spaced (token :: tokens) (character :: characters)
  | piece {token : Token} {tokens : List Token} {piece characters : List Char} (hpiece : tokens? piece = some [token])
      (hplain : token.isMark = false) (hrest : Spaced tokens characters) :
      Spaced (token :: tokens) (piece ++ characters)

/-- Of any two tokens in a row, one is a character by itself. -/
def Apart (tokens : List Token) : Prop :=
  tokens.IsChain fun first second ↦ first.isMark = true ∨ second.isMark = true

/-- Tokens are apart if those behind the first one are, and one of the first two is a character by itself. -/
theorem apart_cons {token : Token} {tokens : List Token} :
    Apart (token :: tokens) ↔
      (∀ next ∈ tokens.head?, token.isMark = true ∨ next.isMark = true) ∧ Apart tokens :=
  List.isChain_cons

/-! ### The characters between tokens -/

/-- A character that is a blank or a token by itself. -/
def Separates (character : Char) : Prop :=
  isBlank character = true ∨ (punctuation? character).isSome = true

/-- A character between tokens belongs to no word and no number. -/
theorem Separates.plain {character : Char} (hseparates : Separates character) :
    isLetter character = false ∧ digitValue? character = none ∧
      ∀ scan : NumberScan, scan.takeMark? character = none := by
  have hlisted : character ∈ [' ', '\n', '\r', '\t', '[', ']', '\x7b', '\x7d', ',', ':'] := by
    rcases hseparates with hblank | hmark
    · simp only [isBlank, Bool.or_eq_true, decide_eq_true_eq] at hblank
      simp only [List.mem_cons]
      tauto
    · unfold punctuation? at hmark
      split at hmark <;> simp at hmark ⊢
  simp only [List.mem_cons, List.not_mem_nil, or_false] at hlisted
  rcases hlisted with rfl | rfl | rfl | rfl | rfl | rfl | rfl | rfl | rfl | rfl <;>
    refine ⟨rfl, rfl, fun scan ↦ ?_⟩ <;> obtain ⟨phase, _⟩ := scan <;> cases phase <;> rfl

/-- A text of tokens of which the first is a character by itself starts with that or with a blank. -/
theorem Spaced.separates {tokens : List Token} {characters : List Char} (hspaced : Spaced tokens characters)
    (hmark : ∀ token ∈ tokens.head?, token.isMark = true) :
    ∀ character ∈ characters.head?, Separates character := by
  cases hspaced with
  | nil => simp
  | blank hblank => simp [Separates, hblank]
  | mark hcharacter => simp [Separates, hcharacter]
  | piece _ hplain => simp [hplain] at hmark

/-! ### What a scanner finds -/

namespace Scanner

/-- The tokens of a text that ends behind some more characters. -/
def allTokens? (scanner : Scanner) (characters : List Char) : Option (List Token) :=
  (characters.foldlM step scanner).bind fun last ↦ last.settle.map List.reverse

/-- A scanner that read some tokens before. -/
def onto (scanner : Scanner) (read : List Token) : Scanner :=
  ⟨scanner.reversed ++ read, scanner.mode⟩

theorem allTokens?_cons (scanner : Scanner) (character : Char) (characters : List Char) :
    scanner.allTokens? (character :: characters) = (scanner.step character).bind (allTokens? · characters) := by
  unfold allTokens?
  rw [List.foldlM_cons]
  exact Option.bind_assoc ..

theorem allTokens?_append (scanner : Scanner) (first second : List Char) :
    scanner.allTokens? (first ++ second) = (first.foldlM step scanner).bind (allTokens? · second) := by
  unfold allTokens?
  rw [List.foldlM_append]
  exact Option.bind_assoc ..

/-! Tokens that were read before change nothing. -/

theorem begin_append (first read : List Token) (character : Char) :
    begin (first ++ read) character = (begin first character).map (onto · read) := by
  unfold begin
  split_ifs
  case neg => split <;> simp [onto, Function.comp_def]
  all_goals rfl

theorem settle_onto (scanner : Scanner) (read : List Token) :
    (scanner.onto read).settle = scanner.settle.map (· ++ read) := by
  obtain ⟨reversed, mode⟩ := scanner
  cases mode <;> simp [settle, onto, Function.comp_def]

theorem step_onto (scanner : Scanner) (read : List Token) (character : Char) :
    (scanner.onto read).step character = (scanner.step character).map (onto · read) := by
  have hsettled : ((scanner.onto read).settle.bind fun tokens ↦ begin tokens character) =
      (scanner.settle.bind fun tokens ↦ begin tokens character).map (onto · read) := by
    rw [settle_onto, Option.bind_map, Option.map_bind]
    exact Option.bind_congr fun tokens _ ↦ begin_append tokens read character
  obtain ⟨reversed, mode⟩ := scanner
  unfold step
  cases mode with
  | between => exact begin_append reversed read character
  | word letters =>
    dsimp only [onto] at hsettled ⊢
    split_ifs
    · rfl
    · exact hsettled
  | number scan =>
    dsimp only [onto] at hsettled ⊢
    split
    · simp [Function.comp_def]
    · split
      · rfl
      · exact hsettled
  | text scan =>
    dsimp only [onto]
    split_ifs
    · rfl
    · simp [Function.comp_def]

theorem allTokens?_onto (scanner : Scanner) (read : List Token) (characters : List Char) :
    (scanner.onto read).allTokens? characters = (scanner.allTokens? characters).map (read.reverse ++ ·) := by
  induction characters generalizing scanner with
  | nil =>
    show (scanner.onto read).settle.map List.reverse = (scanner.settle.map List.reverse).map (read.reverse ++ ·)
    simp [settle_onto, Function.comp_def]
  | cons character rest ih =>
    rw [allTokens?_cons, allTokens?_cons, step_onto, Option.bind_map, Option.map_bind]
    exact Option.bind_congr fun next _ ↦ ih next

/-- Behind a token come the tokens of the rest of the text. -/
theorem allTokens?_singleton (token : Token) (characters : List Char) :
    allTokens? ⟨[token], .between⟩ characters = (tokens? characters).map (token :: ·) :=
  allTokens?_onto start [token] characters

/-- A word or a number that is complete ends at a blank and at a token that is a character by itself. -/
theorem step_of_settle {scanner : Scanner} {read : List Token} {character : Char}
    (hsettle : scanner.settle = some read) (hseparates : Separates character) :
    scanner.step character = step ⟨read, .between⟩ character := by
  obtain ⟨hletter, hdigit, hmark⟩ := hseparates.plain
  obtain ⟨reversed, mode⟩ := scanner
  cases mode with
  | between =>
    obtain rfl := Option.some.inj hsettle
    rfl
  | word letters => simp [step, hletter, hsettle]
  | number scan => simp [step, hdigit, hmark, hsettle]
  | text scan => cases hsettle

/-- Inside a word, a number or a string the scanner has at most one token, which is no character by itself. -/
theorem settle_inside {mode : Mode} (hmode : mode ≠ .between) {read : List Token}
    (hsettle : settle ⟨[], mode⟩ = some read) : ∃ token : Token, token.isMark = false ∧ read = [token] := by
  cases mode with
  | between => exact absurd rfl hmode
  | word letters =>
    obtain ⟨token, htoken, rfl⟩ := Option.map_eq_some_iff.mp hsettle
    refine ⟨token, ?_, rfl⟩
    unfold wordToken? at htoken
    split_ifs at htoken <;> cases htoken <;> rfl
  | number scan =>
    obtain ⟨number, -, rfl⟩ := Option.map_eq_some_iff.mp hsettle
    exact ⟨.number number, rfl, rfl⟩
  | text scan => cases hsettle

/-- Between tokens a character is a blank or a token, or something longer begins with it. -/
theorem begin_cases {character : Char} {next : Scanner} (hbegin : begin [] character = some next) :
    isBlank character = true ∨ (∃ token : Token, punctuation? character = some token) ∨
      ∃ mode : Mode, next = ⟨[], mode⟩ ∧ mode ≠ .between := by
  unfold begin at hbegin
  split_ifs at hbegin with hblank
  case pos => exact .inl hblank
  case neg =>
    split at hbegin
    · exact .inr (.inr ⟨_, (Option.some.inj hbegin).symm, nofun⟩)
    · obtain ⟨token, htoken, -⟩ := Option.map_eq_some_iff.mp hbegin
      exact .inr (.inl ⟨token, htoken⟩)
  all_goals exact .inr (.inr ⟨_, (Option.some.inj hbegin).symm, nofun⟩)

/-- Inside a word, a number or a string a character belongs to it, or is its last one, or follows it. -/
theorem step_inside {mode : Mode} (hmode : mode ≠ .between) {character : Char} {next : Scanner}
    (hstep : step ⟨[], mode⟩ character = some next) :
    (∃ inner : Mode, next = ⟨[], inner⟩ ∧ inner ≠ .between) ∨
      (∃ token : Token, token.isMark = false ∧ next = ⟨[token], .between⟩) ∨
      ∃ read : List Token, settle ⟨[], mode⟩ = some read ∧ step ⟨read, .between⟩ character = some next := by
  unfold step at hstep
  cases mode with
  | between => exact absurd rfl hmode
  | word letters =>
    dsimp only at hstep
    split_ifs at hstep
    · exact .inl ⟨_, (Option.some.inj hstep).symm, nofun⟩
    · exact .inr (.inr (Option.bind_eq_some_iff.mp hstep))
  | number scan =>
    dsimp only at hstep
    split at hstep
    · obtain ⟨inner, -, rfl⟩ := Option.map_eq_some_iff.mp hstep
      exact .inl ⟨_, rfl, nofun⟩
    · split at hstep
      · exact .inl ⟨_, (Option.some.inj hstep).symm, nofun⟩
      · exact .inr (.inr (Option.bind_eq_some_iff.mp hstep))
  | text scan =>
    dsimp only at hstep
    split_ifs at hstep
    · exact .inr (.inl ⟨_, rfl, (Option.some.inj hstep).symm⟩)
    · obtain ⟨inner, -, rfl⟩ := Option.map_eq_some_iff.mp hstep
      exact .inl ⟨_, rfl, nofun⟩

end Scanner

open Scanner

/-! ### The tokens of a text -/

section Texts

variable {token : Token} {tokens : List Token} {character : Char} {characters piece : List Char}

/-- A blank in front makes no difference. -/
theorem tokens?_blank (hblank : isBlank character = true) :
    tokens? (character :: characters) = tokens? characters := by
  have hstep : start.step character = some start := by simp [Scanner.step, start, begin, hblank]
  have hcons := allTokens?_cons start character characters
  rwa [hstep] at hcons

/-- A token that is a character by itself comes before the tokens of the rest. -/
theorem tokens?_mark (hmark : punctuation? character = some token) :
    tokens? (character :: characters) = (tokens? characters).map (token :: ·) := by
  have hstep : start.step character = some ⟨[token], .between⟩ := begin_of_punctuation? hmark []
  have hcons := allTokens?_cons start character characters
  rwa [hstep, Option.bind_some, allTokens?_singleton] at hcons

/-- A piece with a single token comes before the tokens of the rest, if nothing follows that might belong to it. -/
theorem tokens?_piece (hpiece : tokens? piece = some [token])
    (hseparates : ∀ next ∈ characters.head?, Separates next) :
    tokens? (piece ++ characters) = (tokens? characters).map (token :: ·) := by
  obtain ⟨scanner, hscanned, hreverse⟩ := Option.bind_eq_some_iff.mp hpiece
  obtain ⟨read, hsettle, hread⟩ := Option.map_eq_some_iff.mp hreverse
  obtain rfl : read = [token] := List.reverse_eq_iff.mp hread
  have happend := allTokens?_append start piece characters
  rw [hscanned, Option.bind_some] at happend
  rw [← allTokens?_singleton]
  refine happend.trans ?_
  cases characters with
  | nil =>
    show scanner.settle.map List.reverse = some [token]
    rw [hsettle]
    rfl
  | cons next rest => rw [allTokens?_cons, allTokens?_cons, step_of_settle hsettle (hseparates next rfl)]

/-- The scanner finds the tokens that a text consists of. -/
theorem Spaced.tokens?_eq (hspaced : Spaced tokens characters) (hapart : Apart tokens) :
    tokens? characters = some tokens := by
  induction hspaced with
  | nil => rfl
  | blank hblank _ ih => rw [tokens?_blank hblank, ih hapart]
  | mark hmark _ ih => rw [tokens?_mark hmark, ih (apart_cons.mp hapart).2, Option.map_some]
  | piece hpiece hplain hrest ih =>
    obtain ⟨hnext, hothers⟩ := apart_cons.mp hapart
    simp only [hplain, Bool.false_eq_true, false_or] at hnext
    rw [tokens?_piece hpiece (hrest.separates hnext), ih hothers, Option.map_some]

/-- A text consists of the tokens that a scanner finds in it, from between tokens on as well as from inside a piece
of it on. -/
structure Composed (characters : List Char) : Prop where
  between : ∀ tokens : List Token, tokens? characters = some tokens → Spaced tokens characters
  inside : ∀ (piece : List Char) (mode : Mode) (tokens : List Token), mode ≠ .between →
    piece.foldlM Scanner.step start = some ⟨[], mode⟩ → allTokens? ⟨[], mode⟩ characters = some tokens →
      Spaced tokens (piece ++ characters)

/-- The tokens behind a piece that is complete are those of the rest. -/
theorem spaced_of_singleton (hpiece : tokens? piece = some [token]) (hplain : token.isMark = false)
    (hrest : ∀ others : List Token, tokens? characters = some others → Spaced others characters)
    (htokens : allTokens? ⟨[token], .between⟩ characters = some tokens) : Spaced tokens (piece ++ characters) := by
  rw [allTokens?_singleton] at htokens
  obtain ⟨others, hothers, rfl⟩ := Option.map_eq_some_iff.mp htokens
  exact .piece hpiece hplain (hrest others hothers)

/-- A text consists of the tokens that a scanner finds in it. -/
theorem composed (characters : List Char) : Composed characters := by
  -- a piece is complete where the scanner has its token
  have hcomplete : ∀ {piece : List Char} {mode : Mode} {token : Token},
      piece.foldlM Scanner.step start = some ⟨[], mode⟩ → settle ⟨[], mode⟩ = some [token] →
        tokens? piece = some [token] := by
    intro piece mode token hscanned hsettle
    unfold tokens?
    rw [hscanned, Option.bind_some, hsettle]
    rfl
  induction characters with
  | nil =>
    refine ⟨fun tokens htokens ↦ ?_, fun piece mode tokens hmode hscanned htokens ↦ ?_⟩
    · obtain rfl := Option.some.inj htokens
      exact .nil
    · obtain ⟨read, hsettle, rfl⟩ := Option.map_eq_some_iff.mp htokens
      obtain ⟨token, hplain, rfl⟩ := settle_inside hmode hsettle
      exact .piece (hcomplete hscanned hsettle) hplain .nil
  | cons character rest ih =>
    have hbetween : ∀ tokens : List Token, tokens? (character :: rest) = some tokens →
        Spaced tokens (character :: rest) := by
      intro tokens htokens
      have hbegin : allTokens? start (character :: rest) = some tokens := htokens
      rw [allTokens?_cons] at hbegin
      obtain ⟨next, hnext, hfound⟩ := Option.bind_eq_some_iff.mp hbegin
      obtain hblank | ⟨token, hmark⟩ | ⟨mode, rfl, hmode⟩ := begin_cases hnext
      · rw [tokens?_blank hblank] at htokens
        exact .blank hblank (ih.between tokens htokens)
      · rw [tokens?_mark hmark] at htokens
        obtain ⟨others, hothers, rfl⟩ := Option.map_eq_some_iff.mp htokens
        exact .mark hmark (ih.between others hothers)
      · refine ih.inside [character] mode tokens hmode ?_ hfound
        rw [List.foldlM_cons, hnext]
        rfl
    refine ⟨hbetween, fun piece mode tokens hmode hscanned htokens ↦ ?_⟩
    rw [allTokens?_cons] at htokens
    obtain ⟨next, hnext, hfound⟩ := Option.bind_eq_some_iff.mp htokens
    have hlonger : (piece ++ [character]).foldlM Scanner.step start = some next := by
      rw [List.foldlM_append, hscanned]
      show List.foldlM Scanner.step _ [character] = _
      rw [List.foldlM_cons, hnext]
      rfl
    obtain ⟨inner, rfl, hinner⟩ | ⟨token, hplain, rfl⟩ | ⟨read, hsettle, hread⟩ := step_inside hmode hnext
    · rw [List.append_cons]
      exact ih.inside (piece ++ [character]) inner tokens hinner hlonger hfound
    · rw [List.append_cons]
      refine spaced_of_singleton ?_ hplain ih.between hfound
      unfold tokens?
      rw [hlonger]
      rfl
    · obtain ⟨token, hplain, rfl⟩ := settle_inside hmode hsettle
      refine spaced_of_singleton (hcomplete hscanned hsettle) hplain hbetween ?_
      rw [allTokens?_cons, hread, Option.bind_some, hfound]

/-- The scanner finds some tokens in a text exactly if the text consists of them. -/
theorem tokens?_eq_some_iff (hapart : Apart tokens) : tokens? characters = some tokens ↔ Spaced tokens characters :=
  ⟨(composed characters).between tokens, fun hspaced ↦ hspaced.tokens?_eq hapart⟩

end Texts

end Json

end ScriptMachine
