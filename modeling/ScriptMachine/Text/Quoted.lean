import ScriptMachine.Text.Unprintable

/-!
# Quoted text

A listing shows a text between quotes, on one line and with every character visible. The quote, the
backslash, newline, carriage return, tabulator and the null character are escaped by a letter, and any
other character that would not show by its code point in hexadecimal digits between braces.
-/

set_option autoImplicit false
set_option relaxedAutoImplicit false

namespace ScriptMachine

namespace Text

/-- The code point of a character as an escape. -/
def codePointEscape (character : Char) : List Char :=
  ['\\', 'u', '\x7b'] ++ Nat.toDigits 16 character.toNat ++ ['\x7d']

/-- Whether a character is one of the visible characters of ASCII. -/
def isVisibleAscii (character : Char) : Bool :=
  ' ' ≤ character && character ≤ '~'

/-- A character as it stands in a quoted text. -/
def quoteCharacter (character : Char) : List Char :=
  if character = '"' then ['\\', '"']
  else if character = '\\' then ['\\', '\\']
  else if character = '\n' then ['\\', 'n']
  else if character = '\r' then ['\\', 'r']
  else if character = '\t' then ['\\', 't']
  else if character = '\x00' then ['\\', '0']
  else if isVisibleAscii character then [character]
  else if isUnprintable character then codePointEscape character
  else [character]

/-- A text between quotes. -/
def quote (content : String) : String :=
  String.ofList ('"' :: content.toList.flatMap quoteCharacter ++ ['"'])

end Text

end ScriptMachine
