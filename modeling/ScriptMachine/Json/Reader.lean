import ScriptMachine.Json.Scanner

/-!
# Reading JSON

The `Reader` builds a value from tokens. Its frames are the arrays and objects that are open, the
innermost one first, each with what was read of it; what it accepts next is its `Expectation`. A value
that is complete goes into the innermost frame (`Reader.deliver`), so the reader needs no recursion and
knows no limit of depth. `Json.parse?` reads a text as a single value with nothing behind it.
-/

set_option autoImplicit false
set_option relaxedAutoImplicit false

namespace ScriptMachine

namespace Json

/-- An array or an object that is open. Its items or members are kept backwards, and an object also
keeps the name that its next value belongs to. -/
inductive Frame where
  | array (reversed : List Json)
  | object (reversed : List (Member Json)) (name : Text)

/-- What may come next. -/
inductive Expectation where
  | value
  | firstItem
  | firstName
  | name
  | colon
  | separator
  | nothing (result : Json)

/-- The open arrays and objects, and what may come next. -/
structure Reader where
  frames : List Frame
  expectation : Expectation

namespace Reader

/-- Nothing was read. -/
def start : Reader :=
  ⟨[], .value⟩

/-- The reader after a complete value. -/
def deliver (frames : List Frame) (value : Json) : Reader :=
  match frames with
  | [] => ⟨[], .nothing value⟩
  | .array reversed :: outer => ⟨.array (value :: reversed) :: outer, .separator⟩
  | .object reversed name :: outer => ⟨.object (⟨name, value⟩ :: reversed) none :: outer, .separator⟩

/-- The reader after a token with which a value starts. -/
def takeValue (frames : List Frame) : Token → Option Reader
  | .null => some (deliver frames .null)
  | .boolean value => some (deliver frames (.boolean value))
  | .number value => some (deliver frames (.number value))
  | .text content => some (deliver frames (.text content))
  | .openArray => some ⟨.array [] :: frames, .firstItem⟩
  | .openObject => some ⟨.object [] none :: frames, .firstName⟩
  | _ => none

/-- The reader after the name of a member. -/
def takeName (frames : List Frame) : Token → Option Reader
  | .text content =>
    match frames with
    | .object reversed _ :: outer => some ⟨.object reversed content :: outer, .colon⟩
    | _ => none
  | _ => none

/-- The reader after the end of an array. -/
def closeArray : List Frame → Option Reader
  | .array reversed :: outer => some (deliver outer (.array reversed.reverse))
  | _ => none

/-- The reader after the end of an object. -/
def closeObject : List Frame → Option Reader
  | .object reversed _ :: outer => some (deliver outer (.object reversed.reverse))
  | _ => none

/-- The reader after a comma. -/
def separate (frames : List Frame) : Option Reader :=
  match frames with
  | .array _ :: _ => some ⟨frames, .value⟩
  | .object _ _ :: _ => some ⟨frames, .name⟩
  | [] => none

/-- The reader after a token. -/
def step (reader : Reader) (token : Token) : Option Reader :=
  match reader.expectation, token with
  | .value, _ => takeValue reader.frames token
  | .firstItem, .closeArray => closeArray reader.frames
  | .firstItem, _ => takeValue reader.frames token
  | .firstName, .closeObject => closeObject reader.frames
  | .firstName, _ => takeName reader.frames token
  | .name, _ => takeName reader.frames token
  | .colon, .colon => some ⟨reader.frames, .value⟩
  | .colon, _ => none
  | .separator, .comma => separate reader.frames
  | .separator, .closeArray => closeArray reader.frames
  | .separator, .closeObject => closeObject reader.frames
  | .separator, _ => none
  | .nothing _, _ => none

/-- The value that was read, if it is complete. -/
def result? (reader : Reader) : Option Json :=
  match reader.expectation with
  | .nothing value => some value
  | _ => none

end Reader

/-- The value of some tokens. -/
def ofTokens? (tokens : List Token) : Option Json :=
  (tokens.foldlM Reader.step Reader.start).bind Reader.result?

/-- The value of a text. -/
def parse? (text : String) : Option Json :=
  (tokens? text.toList).bind ofTokens?

end Json

end ScriptMachine
