import ScriptMachine.Json.Basic

/-!
# Tokens of a JSON text

The `Scanner` reads a JSON text one character at a time. Between tokens it skips whitespace; inside a
word, a number or a string its `Mode` holds what was read so far. A word and a number end at the first
character that cannot belong to them, so that character is looked at twice. `Scanner.step` takes one
character in, or refuses it, and `tokens?` takes all characters of a text in.

The escape `\u` spells a unit of sixteen bits. Two units that form a surrogate pair are one character; a
surrogate without its partner leaves the string without a content.
-/

set_option autoImplicit false
set_option relaxedAutoImplicit false

namespace ScriptMachine

namespace Json

/-- The smallest meaningful pieces of a JSON text. -/
inductive Token where
  | openArray
  | closeArray
  | openObject
  | closeObject
  | comma
  | colon
  | null
  | boolean (value : Bool)
  | number (value : Number)
  | text (content : Text)
  deriving DecidableEq, Repr

/-! ### Numbers -/

/-- How far the reading of a number has come. -/
inductive NumberPhase where
  | sign
  | zero
  | digits
  | point
  | fraction
  | mark
  | markSign
  | power
  deriving DecidableEq, Repr

/-- The part of a number that was read; the digits behind the point are kept backwards. -/
structure NumberScan where
  phase : NumberPhase
  negative : Bool
  whole : Nat
  reversedFraction : List Nat
  powerNegative : Bool
  power : Nat
  deriving DecidableEq, Repr

/-- The value of a decimal digit. -/
def digitValue? (character : Char) : Option Nat :=
  if '0' ≤ character ∧ character ≤ '9' then some (character.toNat - '0'.toNat) else none

namespace NumberScan

/-- A number that starts with a minus sign. -/
def ofSign : NumberScan :=
  ⟨.sign, true, 0, [], false, 0⟩

/-- A number that starts with a digit. -/
def ofDigit (negative : Bool) (digit : Nat) : NumberScan :=
  ⟨if digit = 0 then .zero else .digits, negative, digit, [], false, 0⟩

/-- The number after one more digit, which a leading zero does not allow. -/
def takeDigit (scan : NumberScan) (digit : Nat) : Option NumberScan :=
  match scan.phase with
  | .sign => some (ofDigit scan.negative digit)
  | .zero => none
  | .digits => some { scan with whole := scan.whole * 10 + digit }
  | .point | .fraction =>
    some { scan with phase := .fraction, reversedFraction := digit :: scan.reversedFraction }
  | .mark | .markSign | .power => some { scan with phase := .power, power := scan.power * 10 + digit }

/-- The exponent of a number. -/
def exponent (scan : NumberScan) : Int :=
  if scan.powerNegative then -(scan.power : Int) else scan.power

/-- The number, if it may end here. -/
def finish? (scan : NumberScan) : Option Number :=
  match scan.phase with
  | .zero | .digits => some (.integer scan.negative scan.whole)
  | .fraction | .power =>
    some (.decimal scan.negative scan.whole scan.reversedFraction.reverse scan.exponent)
  | _ => none

/-- The number after a character that is no digit, if the character belongs to it. -/
def takeMark? (scan : NumberScan) (character : Char) : Option NumberScan :=
  match scan.phase, character with
  | .zero, '.' | .digits, '.' => some { scan with phase := .point }
  | .zero, 'e' | .digits, 'e' | .fraction, 'e' | .zero, 'E' | .digits, 'E' | .fraction, 'E' =>
    some { scan with phase := .mark }
  | .mark, '+' => some { scan with phase := .markSign }
  | .mark, '-' => some { scan with phase := .markSign, powerNegative := true }
  | _, _ => none

end NumberScan

/-! ### Strings -/

/-- Where in a string the reading stands: at a character, behind a backslash, or inside the four
hexadecimal digits of a unit. -/
inductive TextPhase where
  | plain
  | escape
  | unit (digits value : Nat)
  deriving DecidableEq, Repr

/-- The part of a string that was read, backwards: its characters, the first half of a surrogate pair
that waits for the second, and whether a half was left alone. -/
structure TextScan where
  phase : TextPhase
  reversed : List Char
  pending : Option Nat
  broken : Bool
  deriving DecidableEq, Repr

/-- The value of a hexadecimal digit of either case. -/
def hexValue? (character : Char) : Option Nat :=
  if '0' ≤ character ∧ character ≤ '9' then some (character.toNat - '0'.toNat)
  else if 'a' ≤ character ∧ character ≤ 'f' then some (character.toNat - 'a'.toNat + 10)
  else if 'A' ≤ character ∧ character ≤ 'F' then some (character.toNat - 'A'.toNat + 10)
  else none

/-- Whether a unit is the first half of a surrogate pair. -/
def isHighSurrogate (unit : Nat) : Bool :=
  0xD800 ≤ unit && unit ≤ 0xDBFF

/-- Whether a unit is the second half of a surrogate pair. -/
def isLowSurrogate (unit : Nat) : Bool :=
  0xDC00 ≤ unit && unit ≤ 0xDFFF

/-- The character that a surrogate pair stands for. -/
def surrogateCharacter (high low : Nat) : Char :=
  Char.ofNat (0x10000 + (high - 0xD800) * 0x400 + (low - 0xDC00))

namespace TextScan

/-- A string that was just opened. -/
def start : TextScan :=
  ⟨.plain, [], none, false⟩

/-- The string after a character. A first half that still waits is left alone. -/
def takeCharacter (scan : TextScan) (character : Char) : TextScan :=
  ⟨.plain, character :: scan.reversed, none, scan.broken || scan.pending.isSome⟩

/-- The string after a unit. -/
def takeUnit (scan : TextScan) (unit : Nat) : TextScan :=
  match scan.pending with
  | some high =>
    if isLowSurrogate unit then
      ⟨.plain, surrogateCharacter high unit :: scan.reversed, none, scan.broken⟩
    else if isHighSurrogate unit then ⟨.plain, scan.reversed, some unit, true⟩
    else ⟨.plain, Char.ofNat unit :: scan.reversed, none, true⟩
  | none =>
    if isHighSurrogate unit then ⟨.plain, scan.reversed, some unit, scan.broken⟩
    else if isLowSurrogate unit then ⟨.plain, scan.reversed, none, true⟩
    else ⟨.plain, Char.ofNat unit :: scan.reversed, none, scan.broken⟩

/-- The character that a letter stands for behind a backslash. -/
def escaped? : Char → Option Char
  | '"' => some '"'
  | '\\' => some '\\'
  | '/' => some '/'
  | 'b' => some '\x08'
  | 'f' => some '\x0c'
  | 'n' => some '\n'
  | 'r' => some '\r'
  | 't' => some '\t'
  | _ => none

/-- The string after a character of the text other than the closing quote. -/
def step (scan : TextScan) (character : Char) : Option TextScan :=
  match scan.phase with
  | .plain =>
    if character = '\\' then some { scan with phase := .escape }
    else if character < ' ' then none
    else some (scan.takeCharacter character)
  | .escape =>
    if character = 'u' then some { scan with phase := .unit 0 0 }
    else (escaped? character).map scan.takeCharacter
  | .unit digits value =>
    match hexValue? character with
    | none => none
    | some digit =>
      if digits = 3 then some (scan.takeUnit (value * 16 + digit))
      else some { scan with phase := .unit (digits + 1) (value * 16 + digit) }

/-- The content of a string that ends here. -/
def content (scan : TextScan) : Text :=
  if scan.broken || scan.pending.isSome then none else some (String.ofList scan.reversed.reverse)

end TextScan

/-! ### The scanner -/

/-- What the scanner is in the middle of; the letters of a word are kept backwards. -/
inductive Mode where
  | between
  | word (reversed : List Char)
  | number (scan : NumberScan)
  | text (scan : TextScan)
  deriving DecidableEq, Repr

/-- The tokens read so far, the last one first, and what the scanner is in the middle of. -/
structure Scanner where
  reversed : List Token
  mode : Mode
  deriving DecidableEq, Repr

/-- Whether a character may stand between tokens. -/
def isBlank (character : Char) : Bool :=
  character = ' ' || character = '\n' || character = '\r' || character = '\t'

/-- The token of a character that is one by itself. -/
def punctuation? : Char → Option Token
  | '[' => some .openArray
  | ']' => some .closeArray
  | '\x7b' => some .openObject
  | '\x7d' => some .closeObject
  | ',' => some .comma
  | ':' => some .colon
  | _ => none

/-- The token of a word. -/
def wordToken? (letters : List Char) : Option Token :=
  if letters = ['n', 'u', 'l', 'l'] then some .null
  else if letters = ['t', 'r', 'u', 'e'] then some (.boolean true)
  else if letters = ['f', 'a', 'l', 's', 'e'] then some (.boolean false)
  else none

/-- Whether a character may stand in a word. -/
def isLetter (character : Char) : Bool :=
  'a' ≤ character && character ≤ 'z'

namespace Scanner

/-- Nothing was read. -/
def start : Scanner :=
  ⟨[], .between⟩

/-- The scanner after a character between tokens. -/
def begin (reversed : List Token) (character : Char) : Option Scanner :=
  if isBlank character then some ⟨reversed, .between⟩
  else if character = '"' then some ⟨reversed, .text .start⟩
  else if character = '-' then some ⟨reversed, .number .ofSign⟩
  else if isLetter character then some ⟨reversed, .word [character]⟩
  else
    match digitValue? character with
    | some digit => some ⟨reversed, .number (.ofDigit false digit)⟩
    | none => (punctuation? character).map fun token ↦ ⟨token :: reversed, .between⟩

/-- The tokens with the word or number that ends here. -/
def settle (scanner : Scanner) : Option (List Token) :=
  match scanner.mode with
  | .between => some scanner.reversed
  | .word reversed => (wordToken? reversed.reverse).map (· :: scanner.reversed)
  | .number scan => scan.finish?.map fun number ↦ .number number :: scanner.reversed
  | .text _ => none

/-- The scanner after a character. -/
def step (scanner : Scanner) (character : Char) : Option Scanner :=
  match scanner.mode with
  | .between => begin scanner.reversed character
  | .word reversed =>
    if isLetter character then some ⟨scanner.reversed, .word (character :: reversed)⟩
    else scanner.settle.bind (begin · character)
  | .number scan =>
    match digitValue? character with
    | some digit => (scan.takeDigit digit).map fun next ↦ ⟨scanner.reversed, .number next⟩
    | none =>
      match scan.takeMark? character with
      | some next => some ⟨scanner.reversed, .number next⟩
      | none => scanner.settle.bind (begin · character)
  | .text scan =>
    if character = '"' ∧ scan.phase = .plain then
      some ⟨.text scan.content :: scanner.reversed, .between⟩
    else (scan.step character).map fun next ↦ ⟨scanner.reversed, .text next⟩

end Scanner

/-- The tokens of a text. -/
def tokens? (characters : List Char) : Option (List Token) :=
  (characters.foldlM Scanner.step Scanner.start).bind fun scanner ↦ scanner.settle.map List.reverse

end Json

end ScriptMachine
