import Mathlib.Tactic.SplitIfs
import ScriptMachine.Diagnostic.Terminal

/-!
# Colour on a terminal

A style sequence is an escape character, a bracket, digits and semicolons, and the letter m. `Terminal.strip` deletes
all style sequences of a text. A text `Terminal.Decorates` another one that has no escape characters if deleting the
sequences gives that one, whatever comes behind the text; this holds of texts without escape characters, of pieces in a
style, and of texts put together from such texts. So a diagnostic in colour decorates the one without colour
(`Diagnostic.strip_toTerminal`).
-/

set_option autoImplicit false
set_option relaxedAutoImplicit false

namespace ScriptMachine

namespace Terminal

/-! ### Deleting style sequences -/

/-- The character with which a style sequence starts. -/
def escape : Char :=
  '\x1b'

/-- Whether a character may stand between the bracket and the letter of a style sequence. -/
def isParameter (character : Char) : Bool :=
  character.isDigit || character = ';'

/-- The characters behind digits, semicolons and the letter m, if a text begins with these. -/
def behindParameters? : List Char → Option (List Char)
  | [] => none
  | character :: rest =>
    if isParameter character then behindParameters? rest else if character = 'm' then some rest else none

/-- The characters behind a style sequence, if a text begins with one. -/
def behindStyle? : List Char → Option (List Char)
  | first :: second :: rest => if first = escape ∧ second = '[' then behindParameters? rest else none
  | _ => none

theorem length_behindParameters? {characters rest : List Char} (hbehind : behindParameters? characters = some rest) :
    rest.length < characters.length := by
  induction characters with
  | nil => cases hbehind
  | cons character more ih =>
    unfold behindParameters? at hbehind
    rw [List.length_cons]
    split_ifs at hbehind
    · exact Nat.lt_succ_of_lt (ih hbehind)
    · obtain rfl := Option.some.inj hbehind
      exact Nat.lt_succ_self _

theorem length_behindStyle? {characters rest : List Char} (hbehind : behindStyle? characters = some rest) :
    rest.length < characters.length := by
  unfold behindStyle? at hbehind
  split at hbehind
  case h_1 first second more =>
    split_ifs at hbehind
    have hless := length_behindParameters? hbehind
    simp only [List.length_cons]
    omega
  case h_2 => cases hbehind

/-- The characters without the style sequences among them. -/
def withoutStyles (characters : List Char) : List Char :=
  match _ : behindStyle? characters with
  | some rest => withoutStyles rest
  | none =>
    match characters with
    | [] => []
    | character :: rest => character :: withoutStyles rest
termination_by characters.length
decreasing_by
  · exact length_behindStyle? ‹_›
  · exact Nat.lt_succ_self _

/-- A text without the style sequences in it. -/
def strip (text : String) : String :=
  String.ofList (withoutStyles text.toList)

/-- A style sequence is deleted. -/
theorem withoutStyles_of_behindStyle? {characters rest : List Char}
    (hbehind : behindStyle? characters = some rest) : withoutStyles characters = withoutStyles rest := by
  rw [withoutStyles]
  split
  case h_1 found hfound => rw [Option.some.inj (hfound.symm.trans hbehind)]
  case h_2 hnone => rw [hnone] at hbehind; cases hbehind

/-- Only an escape character starts a style sequence. -/
theorem behindStyle?_cons {character : Char} (hescape : character ≠ escape) (rest : List Char) :
    behindStyle? (character :: rest) = none := by
  cases rest with
  | nil => rfl
  | cons second more => exact if_neg fun hboth ↦ hescape hboth.1

/-- A character that is no escape character stays where it is. -/
theorem withoutStyles_cons {character : Char} (hescape : character ≠ escape) (rest : List Char) :
    withoutStyles (character :: rest) = character :: withoutStyles rest := by
  rw [withoutStyles]
  split
  case h_1 found hfound => rw [behindStyle?_cons hescape] at hfound; cases hfound
  case h_2 => rfl

theorem withoutStyles_nil : withoutStyles [] = [] := by
  rw [withoutStyles]
  rfl

/-- Characters without an escape character among them stay where they are. -/
theorem withoutStyles_append {characters : List Char} (hclean : escape ∉ characters) (rest : List Char) :
    withoutStyles (characters ++ rest) = characters ++ withoutStyles rest := by
  induction characters with
  | nil => rfl
  | cons character more ih =>
    rw [List.mem_cons, not_or] at hclean
    rw [List.cons_append, withoutStyles_cons (Ne.symm hclean.1), ih hclean.2, List.cons_append]

/-! ### Decorated texts -/

/-- Deleting the style sequences of a text gives another one, whatever comes behind it, and the other one has no escape
characters. -/
structure Decorates (painted plain : String) : Prop where
  clean : escape ∉ plain.toList
  stripped : ∀ rest : List Char, withoutStyles (painted.toList ++ rest) = plain.toList ++ withoutStyles rest

namespace Decorates

variable {painted plain more other : String}

/-- A text without escape characters decorates itself. -/
theorem refl (hclean : escape ∉ plain.toList) : Decorates plain plain :=
  ⟨hclean, withoutStyles_append hclean⟩

/-- Decorated texts may be put together. -/
theorem append (hfirst : Decorates painted plain) (hsecond : Decorates more other) :
    Decorates (painted ++ more) (plain ++ other) := by
  constructor
  · rw [String.toList_append, List.mem_append, not_or]
    exact ⟨hfirst.clean, hsecond.clean⟩
  · intro rest
    rw [String.toList_append, String.toList_append, List.append_assoc, hfirst.stripped, hsecond.stripped,
      List.append_assoc]

/-- A style sequence leaves no trace. -/
theorem style (opening : Style) (rest : List Char) :
    withoutStyles (opening.opening.toList ++ rest) = withoutStyles rest := by
  refine withoutStyles_of_behindStyle? ?_
  cases opening <;> rfl

theorem closing (rest : List Char) : withoutStyles (Style.closing.toList ++ rest) = withoutStyles rest :=
  withoutStyles_of_behindStyle? rfl

/-- A piece in a style decorates the piece. -/
theorem paint (style : Style) (hpiece : Decorates painted plain) :
    Decorates (style.paint true painted) (style.paint false plain) := by
  refine ⟨hpiece.clean, fun rest ↦ ?_⟩
  show withoutStyles ((style.opening ++ painted ++ Style.closing).toList ++ rest) = _
  rw [String.toList_append, String.toList_append, List.append_assoc, List.append_assoc, Decorates.style,
    hpiece.stripped, closing]
  rfl

/-- Any number of decorated texts may be put together. -/
theorem join {α : Type} {paint plainly : α → String} {values : List α}
    (hvalues : ∀ value ∈ values, Decorates (paint value) (plainly value)) :
    Decorates (String.join (values.map paint)) (String.join (values.map plainly)) := by
  have hbehind : ∀ painted plain : String, Decorates painted plain →
      Decorates ((values.map paint).foldl (· ++ ·) painted) ((values.map plainly).foldl (· ++ ·) plain) := by
    induction values with
    | nil => exact fun _ _ hfirst ↦ hfirst
    | cons value rest ih =>
      obtain ⟨hvalue, hrest⟩ := List.forall_mem_cons.mp hvalues
      exact fun _ _ hfirst ↦ ih hrest _ _ (hfirst.append hvalue)
  exact hbehind "" "" (refl (by decide))

/-- Deleting the style sequences of a text gives the one that it decorates. -/
theorem strip_eq (hdecorates : Decorates painted plain) : strip painted = plain := by
  have hstripped := hdecorates.stripped []
  rw [List.append_nil, withoutStyles_nil, List.append_nil] at hstripped
  rw [strip, hstripped, String.ofList_toList]

/-- The digits of a number are no escape characters. -/
theorem digits (number : Nat) : Decorates (toString number) (toString number) := by
  refine refl fun hmem ↦ ?_
  have hdigit := Nat.isDigit_of_mem_toDigits (by decide) (Nat.le_refl 10) (Nat.toList_repr ▸ hmem)
  exact absurd hdigit (by decide)

end Decorates

end Terminal

/-! ### Diagnostics -/

namespace Diagnostic

open Terminal

/-- The texts that a diagnostic has from elsewhere. -/
def texts (diagnostic : Diagnostic) : List String :=
  diagnostic.code.toList ++ [diagnostic.message] ++ diagnostic.source.toList ++ diagnostic.notes ++
    diagnostic.suggestion.toList

/-- None of the texts of a diagnostic has an escape character. -/
def Clean (diagnostic : Diagnostic) : Prop :=
  ∀ text ∈ diagnostic.texts, escape ∉ text.toList

variable {diagnostic : Diagnostic}

/-- A text without escape characters decorates itself, in particular any text of a clean diagnostic. -/
theorem Clean.decorates (hclean : diagnostic.Clean) {text : String} (htext : text ∈ diagnostic.texts) :
    Decorates text text :=
  .refl (hclean text htext)

theorem decorates_name (severity : Severity) : Decorates severity.name severity.name :=
  .refl (by cases severity <;> decide)

/-- The head in colour decorates the plain one. -/
theorem Clean.paintedHead (hclean : diagnostic.Clean) :
    Decorates (diagnostic.paintedHead true) (diagnostic.paintedHead false) := by
  have hhead : Decorates diagnostic.head diagnostic.head := by
    unfold head
    cases hcode : diagnostic.code with
    | none => exact decorates_name _
    | some code =>
      have hmem : code ∈ diagnostic.texts := by simp [texts, hcode]
      exact (((decorates_name _).append (.refl (by decide))).append (hclean.decorates hmem)).append (.refl (by decide))
  unfold Diagnostic.paintedHead
  cases diagnostic.severity with
  | error => exact hhead.paint .boldRed
  | warning => exact (hhead.paint .cyan).paint .bold

/-- The place in colour decorates the plain one. -/
theorem Clean.placeLine (hclean : diagnostic.Clean) :
    Decorates (diagnostic.placeLine true) (diagnostic.placeLine false) := by
  have harrow : Decorates ("  " ++ Style.cyan.paint true "-->" ++ " ") ("  " ++ Style.cyan.paint false "-->" ++ " ") :=
    (Decorates.append (.refl (by decide)) (.paint .cyan (.refl (by decide)))).append (.refl (by decide))
  have hbreak : Decorates "\n" "\n" := .refl (by decide)
  have hsource : ∀ source : String, diagnostic.source = some source → Decorates source source :=
    fun source hsome ↦ hclean.decorates (by simp [texts, hsome])
  unfold Diagnostic.placeLine
  cases hname : diagnostic.source with
  | none =>
    cases diagnostic.line with
    | none => exact .refl (by decide)
    | some line => exact ((harrow.append (.refl (by decide))).append (.digits _)).append hbreak
  | some source =>
    cases diagnostic.line with
    | none => exact (harrow.append (hsource source hname)).append hbreak
    | some line =>
      exact (((harrow.append (hsource source hname)).append (.refl (by decide))).append (.digits _)).append hbreak

/-- A remark in colour decorates the plain one. -/
theorem decorates_remarkLine {kind content : String} (hkind : Decorates kind kind)
    (hcontent : Decorates content content) :
    Decorates (remarkLine true kind content) (remarkLine false kind content) := by
  have hmark : Decorates (Style.dim.paint true "=") (Style.dim.paint false "=") := .paint .dim (.refl (by decide))
  exact ((((((Decorates.refl (by decide)).append hmark).append (.refl (by decide))).append hkind).append
    (.refl (by decide))).append hcontent).append (.refl (by decide))

/-- A diagnostic in colour decorates the plain one. -/
theorem Clean.toTerminal (hclean : diagnostic.Clean) :
    Decorates (diagnostic.toTerminal true) (diagnostic.toTerminal false) := by
  have hmessage : Decorates diagnostic.message diagnostic.message := hclean.decorates (by simp [texts])
  have hnotes : ∀ note ∈ diagnostic.notes, Decorates (remarkLine true "note" note) (remarkLine false "note" note) :=
    fun note hnote ↦ decorates_remarkLine (.refl (by decide)) (hclean.decorates (by simp [texts, hnote]))
  unfold Diagnostic.toTerminal
  refine ((((((hclean.paintedHead.append (.refl (by decide))).append (hmessage.paint .bold)).append
    (.refl (by decide))).append hclean.placeLine).append (.join hnotes)).append ?_)
  cases hsome : diagnostic.suggestion with
  | none => exact .refl (by decide)
  | some suggestion => exact decorates_remarkLine (.refl (by decide)) (hclean.decorates (by simp [texts, hsome]))

/-- Colour is nothing but decoration. If no text of a diagnostic has an escape character, deleting all style sequences
from what is shown in colour gives what is shown without colour, and this has no escape character either. -/
theorem strip_toTerminal (hclean : diagnostic.Clean) :
    strip (diagnostic.toTerminal true) = diagnostic.toTerminal false ∧
      escape ∉ (diagnostic.toTerminal false).toList :=
  ⟨hclean.toTerminal.strip_eq, hclean.toTerminal.clean⟩

/-- A warning whose texts look like pieces of style sequences. -/
def bracketed : Diagnostic :=
  ⟨.warning, some "[1m", "[0m;31m", some 7, some "36m[", ["[2m", "m"], some ";m"⟩

theorem strip_toTerminal_bracketed :
    bracketed.Clean ∧ strip (bracketed.toTerminal true) = bracketed.toTerminal false ∧
      bracketed.toTerminal false =
        "warning[[1m]: [0m;31m\n  --> 36m[:7\n  = note: [2m\n  = note: m\n  = suggestion: ;m\n" := by
  have hclean : bracketed.Clean := by
    unfold Clean
    decide
  exact ⟨hclean, (strip_toTerminal hclean).1, by decide⟩

end Diagnostic

end ScriptMachine
