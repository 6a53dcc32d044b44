import ScriptMachine.Json.Basic

/-!
# Writing JSON

`Json.render` writes a value without any whitespace, members in their order. In a string the quote, the
backslash and the characters below the space are escaped, those with a letter of their own by that
letter and the others by their number; everything else stands for itself.
-/

set_option autoImplicit false
set_option relaxedAutoImplicit false

namespace ScriptMachine

namespace Json

/-! ### Strings -/

/-- The hexadecimal digit of a number below sixteen. -/
def hexDigit (value : Nat) : Char :=
  if value < 10 then Char.ofNat ('0'.toNat + value) else Char.ofNat ('a'.toNat + (value - 10))

/-- A character as it stands in a string. -/
def escape (character : Char) : List Char :=
  if character = '"' then ['\\', '"']
  else if character = '\\' then ['\\', '\\']
  else if character = '\x08' then ['\\', 'b']
  else if character = '\x0c' then ['\\', 'f']
  else if character = '\n' then ['\\', 'n']
  else if character = '\r' then ['\\', 'r']
  else if character = '\t' then ['\\', 't']
  else if character < ' ' then
    ['\\', 'u', '0', '0', hexDigit (character.toNat / 16), hexDigit (character.toNat % 16)]
  else [character]

/-- A string between its quotes. -/
def renderString (content : String) : List Char :=
  '"' :: content.toList.flatMap escape ++ ['"']

/-- The content of a string, or half of a surrogate pair where there is none. -/
def renderText : Text → List Char
  | some content => renderString content
  | none => "\"\\ud800\"".toList

/-! ### Values -/

/-- The digits behind the point of a number, with the point. -/
def renderFraction (fraction : List Nat) : List Char :=
  if fraction.isEmpty then [] else '.' :: fraction.map Nat.digitChar

/-- A number. A decimal always shows its exponent. -/
def renderNumber : Number → List Char
  | .integer negative magnitude => (if negative then ['-'] else []) ++ (toString magnitude).toList
  | .decimal negative whole fraction exponent =>
    (if negative then ['-'] else []) ++ (toString whole).toList ++ renderFraction fraction ++
      'e' :: (toString exponent).toList

mutual

/-- A value. -/
def renderChars : Json → List Char
  | .null => ['n', 'u', 'l', 'l']
  | .boolean true => ['t', 'r', 'u', 'e']
  | .boolean false => ['f', 'a', 'l', 's', 'e']
  | .number value => renderNumber value
  | .text content => renderText content
  | .array items => '[' :: renderItems items ++ [']']
  | .object members => '\x7b' :: renderMembers members ++ ['\x7d']

/-- The items of an array with commas between them. -/
def renderItems : List Json → List Char
  | [] => []
  | item :: rest => renderChars item ++ renderMoreItems rest

/-- Further items of an array, each with a comma in front. -/
def renderMoreItems : List Json → List Char
  | [] => []
  | item :: rest => ',' :: renderChars item ++ renderMoreItems rest

/-- The members of an object with commas between them. -/
def renderMembers : List (Member Json) → List Char
  | [] => []
  | member :: rest => renderText member.name ++ ':' :: renderChars member.value ++ renderMoreMembers rest

/-- Further members of an object, each with a comma in front. -/
def renderMoreMembers : List (Member Json) → List Char
  | [] => []
  | member :: rest =>
    ',' :: renderText member.name ++ ':' :: renderChars member.value ++ renderMoreMembers rest

end

/-- The text of a value. -/
def render (json : Json) : String :=
  String.ofList json.renderChars

end Json

end ScriptMachine
