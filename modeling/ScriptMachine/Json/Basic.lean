import ScriptMachine.Json.Number

/-!
# JSON values

A `Json` value is what a JSON text says. It keeps more than most uses of JSON need, so that each use can
be as strict as it has to be: the members of an object stay in order and may repeat a name; a number is
kept as it is written (`Json.Number`); and the escapes of a string can spell half of a surrogate pair,
which is no character, so the content of a string is optional (`Json.Text`).

`Json.isSound` asks for the strict reading: every string has a content and no number lies beyond the
doubles. `Json.depth` counts how many arrays and objects lie within one another.
-/

set_option autoImplicit false
set_option relaxedAutoImplicit false

namespace ScriptMachine

namespace Json

/-- The content of a string, and none where its escapes spell half of a surrogate pair. -/
abbrev Text :=
  Option String

/-- A name and a value in an object. -/
structure Member (json : Type) where
  name : Text
  value : json
  deriving BEq, DecidableEq, Repr

end Json

/-! ### Values -/

/-- What a JSON text says. -/
inductive Json where
  | null
  | boolean (value : Bool)
  | number (value : Json.Number)
  | text (content : Json.Text)
  | array (items : List Json)
  | object (members : List (Json.Member Json))
  deriving BEq, Repr

namespace Json

/-- The value of an integer. -/
def ofInt (value : Int) : Json :=
  .number (.ofInt value)

/-- The value of a natural number. -/
def ofNat (value : Nat) : Json :=
  ofInt value

/-- The value of a string. -/
def ofString (content : String) : Json :=
  .text (some content)

/-- The object with some members. -/
def ofMembers (members : List (String × Json)) : Json :=
  .object (members.map fun member ↦ ⟨some member.1, member.2⟩)

/-! ### Depth and soundness -/

mutual

/-- The number of arrays and objects that lie within one another. -/
def depth : Json → Nat
  | .array items => itemsDepth items + 1
  | .object members => membersDepth members + 1
  | _ => 0

/-- The greatest depth of some items. -/
def itemsDepth : List Json → Nat
  | [] => 0
  | item :: rest => max item.depth (itemsDepth rest)

/-- The greatest depth of the values of some members. -/
def membersDepth : List (Member Json) → Nat
  | [] => 0
  | member :: rest => max member.value.depth (membersDepth rest)

end

mutual

/-- Whether every string has a content and every number is finite. -/
def isSound : Json → Bool
  | .null => true
  | .boolean _ => true
  | .number value => value.isFinite
  | .text content => content.isSome
  | .array items => itemsSound items
  | .object members => membersSound members

/-- Whether all items are sound. -/
def itemsSound : List Json → Bool
  | [] => true
  | item :: rest => item.isSound && itemsSound rest

/-- Whether all members are sound, names included. -/
def membersSound : List (Member Json) → Bool
  | [] => true
  | member :: rest => member.name.isSome && member.value.isSound && membersSound rest

end

end Json

end ScriptMachine
