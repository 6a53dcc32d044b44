import ScriptMachine.Json.Reader
import ScriptMachine.Tree.Format

/-!
# Reading trees

`Script.ofText?` reads a script from a JSON text. A script, a block, a field and a node may each be
written as an object, with its parts in any order and other members beside them, or as an array of its
parts in the order of the format (`recordOf?`). A part may not be given twice. Only the line may be left
out, and the name of a function that is written as an object; a line left out is zero.

Inside the nodes the text has to be sound in the sense of `Json.isSound`, also where it says nothing about
the tree, and arrays and objects lie at most `depthLimit` deep within one another. Members of the script
and of its body that mean nothing are skipped without such a look. A node that lies in another one may
give its form by number instead of by name.

`nodeOf?` reads a node whose parts are read with a given function; `nestedNode?` uses itself for the
parts, one level less deep, and so comes to an end with the depth that is allowed.
-/

set_option autoImplicit false
set_option relaxedAutoImplicit false

namespace ScriptMachine

/-! ### Plain parts -/

/-- A source line. -/
def lineOf? : Json → Option UInt32
  | .number value =>
    match value.toInt? with
    | some line => if 0 ≤ line ∧ line < UInt32.size then some (UInt32.ofNat line.toNat) else none
    | none => none
  | _ => none

/-- A 64-bit integer. -/
def integerOf? : Json → Option Int64
  | .number value =>
    match value.toInt? with
    | some integer =>
      if Int64.minValue.toInt ≤ integer ∧ integer ≤ Int64.maxValue.toInt then
        some (Int64.ofInt integer)
      else none
    | none => none
  | _ => none

/-- A truth value. -/
def flagOf? : Json → Option Bool
  | .boolean value => some value
  | _ => none

/-- A string with a content. -/
def textOf? : Json → Option String
  | .text content => content
  | _ => none

/-- A string with a content, or null. -/
def optionalTextOf? : Json → Option (Option String)
  | .null => some none
  | json => (textOf? json).map some

/-- The items of an array, each read with the same function. -/
def itemsOf? {α : Type} (read : Json → Option α) : Json → Option (List α)
  | .array items => items.mapM read
  | _ => none

/-- Whether a value can stand for the content of undefined. -/
def isNothing : Json → Bool
  | .null => true
  | .object [] => true
  | _ => false

/-- A literal. -/
def literalOf? : Json → Option Literal
  | .text (some "Undefined") => some .undefined
  | .object [⟨some "Int", value⟩] => (integerOf? value).map .integer
  | .object [⟨some "Str", value⟩] => (textOf? value).map .text
  | .object [⟨some "Bool", value⟩] => (flagOf? value).map .boolean
  | .object [⟨some "Undefined", value⟩] => if isNothing value then some .undefined else none
  | _ => none

/-! ### Records -/

/-- The members of a value with named parts. An array gives the parts in order, all of them, or all but
the last one where that one may be left out. -/
def recordOf? (parts : List String) (lastOptional : Bool) : Json → Option (List (Json.Member Json))
  | .object members => some members
  | .array items =>
    if items.length = parts.length ∨ (lastOptional ∧ items.length + 1 = parts.length) then
      some ((parts.zip items).map fun part ↦ ⟨some part.1, part.2⟩)
    else none
  | _ => none

/-- The value of a part, if it is there; it may not be there twice. -/
def partOf? (members : List (Json.Member Json)) (name : String) : Option (Option Json) :=
  match members.filter fun member ↦ member.name == some name with
  | [] => some none
  | [member] => some (some member.value)
  | _ => none

/-- A part that has to be there. -/
def required? {α : Type} (members : List (Json.Member Json)) (name : String)
    (read : Json → Option α) : Option α :=
  match partOf? members name with
  | some (some json) => read json
  | _ => none

/-- A part with a value that stands for it where it is left out. -/
def optional? {α : Type} (members : List (Json.Member Json)) (name : String) (absent : α)
    (read : Json → Option α) : Option α :=
  match partOf? members name with
  | some (some json) => read json
  | some none => some absent
  | none => none

/-- The line of a record. -/
def recordLine? (members : List (Json.Member Json)) : Option UInt32 :=
  optional? members "line" 0 lineOf?

/-! ### Nodes -/

/-- The form of a node that is given by name. -/
def namedKind? : Json → Option NodeKind
  | .text (some name) => NodeKind.ofName? name
  | _ => none

/-- The form of a node that is given by name or by number. -/
def anyKind? : Json → Option NodeKind
  | .number value =>
    match value.toInt? with
    | some (.ofNat position) => NodeKind.all[position]?
    | _ => none
  | json => namedKind? json

/-- A block of nodes. -/
def blockOf? (read : Json → Option Node) (json : Json) : Option (Block Node) := do
  let members ← recordOf? NodeKind.block.parts true json
  let nodes ← required? members "instrs" (itemsOf? read)
  let line ← recordLine? members
  return ⟨nodes, line⟩

/-- A field of an object literal. -/
def fieldOf? (read : Json → Option Node) (json : Json) : Option (Field Node) := do
  let members ← recordOf? ["name", "value"] false json
  let name ← required? members "name" textOf?
  let value ← required? members "value" read
  return ⟨name, value⟩

/-- A node of a known form. -/
def partsOf? (read : Json → Option Node) (members : List (Json.Member Json)) :
    NodeKind → Option Node
  | .block => do
    let nodes ← required? members "instrs" (itemsOf? read)
    return .block ⟨nodes, ← recordLine? members⟩
  | .literal => do
    let value ← required? members "value" literalOf?
    return .literal value (← recordLine? members)
  | .call => do
    let callee ← required? members "callee" read
    let arguments ← required? members "args" (itemsOf? read)
    return .call callee arguments (← recordLine? members)
  | .access => do
    let name ← required? members "name" textOf?
    return .access name (← recordLine? members)
  | .assignment => do
    let name ← required? members "name" textOf?
    let value ← required? members "expr" read
    let declares ← required? members "declaration" flagOf?
    return .assignment name value declares (← recordLine? members)
  | .function => do
    let name ← optional? members "name" none optionalTextOf?
    let parameters ← required? members "parameters" (itemsOf? textOf?)
    let body ← required? members "body" (blockOf? read)
    return .function name parameters body (← recordLine? members)
  | .ret => do
    let value ← required? members "expr" read
    return .ret value (← recordLine? members)
  | .conditional => do
    let condition ← required? members "condition" read
    let thenBlock ← required? members "then_block" (blockOf? read)
    let elseBlock ← required? members "else_block" (blockOf? read)
    return .conditional condition thenBlock elseBlock (← recordLine? members)
  | .object => do
    let fields ← required? members "fields" (itemsOf? (fieldOf? read))
    return .object fields (← recordLine? members)
  | .fieldAccess => do
    let receiver ← required? members "receiver" read
    let name ← required? members "name" textOf?
    return .fieldAccess receiver name (← recordLine? members)
  | .fieldAssignment => do
    let receiver ← required? members "receiver" read
    let name ← required? members "name" textOf?
    let value ← required? members "expr" read
    return .fieldAssignment receiver name value (← recordLine? members)
  | .methodCall => do
    let receiver ← required? members "receiver" read
    let name ← required? members "name" textOf?
    let arguments ← required? members "args" (itemsOf? read)
    return .methodCall receiver name arguments (← recordLine? members)

/-- A node whose form and whose parts are read with given functions. As an array, a node has its form
in front of its parts. -/
def nodeOf? (kindOf : Json → Option NodeKind) (read : Json → Option Node) : Json → Option Node
  | .object members => do
    let kind ← required? members "kind" kindOf
    partsOf? read members kind
  | .array (first :: rest) => do
    let kind ← kindOf first
    partsOf? read (← recordOf? kind.parts true (.array rest)) kind
  | _ => none

/-- A node that lies in another one, with room for a number of further levels. -/
def nestedNode? : (levels : Nat) → Json → Option Node
  | 0, _ => none
  | levels + 1, json => nodeOf? anyKind? (nestedNode? levels) json

/-! ### Scripts -/

/-- The number of arrays and objects that may lie within one another. -/
def depthLimit : Nat :=
  127

/-- The number of arrays and objects around an outermost node: the script, its body and the list of its
nodes. -/
def outerDepth : Nat :=
  3

/-- An outermost node. -/
def outerNode? (json : Json) : Option Node :=
  if json.isSound ∧ json.depth + outerDepth ≤ depthLimit then
    nodeOf? namedKind? (nestedNode? depthLimit) json
  else none

/-- Whether the names of all members of an object have a content. -/
def namesSound : Json → Bool
  | .object members => members.all fun member ↦ member.name.isSome
  | _ => true

namespace Script

/-- The script that a JSON value says. -/
def ofJson? (json : Json) : Option Script := do
  let members ← recordOf? ["body"] false json
  let body ← required? members "body" fun body ↦
    if namesSound body then blockOf? outerNode? body else none
  if namesSound json then some ⟨body⟩ else none

/-- The script of a text. -/
def ofText? (text : String) : Option Script :=
  (Json.parse? text).bind ofJson?

end Script

end ScriptMachine
