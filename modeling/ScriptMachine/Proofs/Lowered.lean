import ScriptMachine.Proofs.AssembledCode
import ScriptMachine.Proofs.Sites

/-!
# Code that belongs to a tree

`Lowered` relates a part of a program to its code, given the constants, the slots of the function around it
and the identity of its first site. It says of each kind of node what the compiler makes of it, but
instead of words it speaks of what the words stand for. A `Part` is a node, a node of which exactly one
value or none is wanted, or several nodes in a row; an induction over `Lowered` covers them all at once.
`Closure.Compiled` says that a routine is the code of a function.
-/

set_option autoImplicit false
set_option relaxedAutoImplicit false

namespace ScriptMachine

/-- A part of a program that has code of its own. -/
inductive Part where
  | node (node : Node)
  | value (node : Node)
  | statement (node : Node)
  | values (nodes : List Node)
  | statements (nodes : List Node)
  | fields (fields : List (Field Node))

/-- The number of values that a part leaves. -/
def Part.valueCount : Part → Nat
  | .node tree => if tree.isStatement then 0 else 1
  | .value _ => 1
  | .statement _ => 0
  | .values trees => trees.length
  | .statements _ => 0
  | .fields members => members.length

/-- The source line of the last instruction of a code unit. -/
def CodeUnit.lastLine? (unit : CodeUnit) : Option UInt32 :=
  unit.lines.back?.map LineEntry.line

/-- The line of the last instruction of a fragment is that of its last emission. -/
theorem Fragment.lastLine?_assemble (code : Fragment) (emission : Emission) (parameterCount slotCount : Nat) :
    (assemble (code ++ [emission]) parameterCount slotCount).lastLine? = some emission.line := by
  unfold assemble CodeUnit.lastLine? CodeBuffer.finish
  dsimp only
  rw [List.foldl_append, List.foldl_cons, List.foldl_nil, lines_write]
  unfold CodeBuffer.recordLine
  split_ifs with hsame
  · exact hsame
  · rw [Array.back?_push]
    rfl

open Lowering in
/-- The code of a part of a function with some slots, whose sites have the identities from the first one
on. -/
inductive Lowered (table : ConstantTable) (slots : SlotTable) : (first : Nat) → Part → Fragment → Prop where
  | block {first : Nat} {body : Block Node} {code : Fragment}
      (hbody : Lowered table slots first (.statements body.nodes) code) :
      Lowered table slots first (.node (.block body)) code
  | literal {first : Nat} {value : Literal} {line : UInt32} {word : Word}
      (hword : table.value? [] word = some value.toValue) :
      Lowered table slots first (.node (.literal value line)) [.plain (.constant word) line]
  | localAccess {first : Nat} {name : String} {line : UInt32} {slot : Nat}
      (hslot : slots.slotOf? name = some slot) :
      Lowered table slots first (.node (.access name line)) [.plain (.load (UInt32.ofNat slot)) line]
  | globalAccess {first : Nat} {name : String} {line : UInt32} {word : Word}
      (hslot : slots.slotOf? name = none) (hword : table.text? word = some name) :
      Lowered table slots first (.node (.access name line)) [.plain (.lookup word) line]
  | assignment {first : Nat} {name : String} {value : Node} {declares : Bool} {line : UInt32}
      {code : Fragment} {slot : Nat} (hvalue : Lowered table slots first (.value value) code)
      (hslot : slots.slotOf? name = some slot) :
      Lowered table slots first (.node (.assignment name value declares line))
        (code ++ [.plain (.store (UInt32.ofNat slot)) line])
  | anonymous {first : Nat} {parameters : List String} {body : Block Node} {line : UInt32} {word : Word}
      {routine : Routine} (hword : table.constant? word = some (.function (.compiled routine)))
      (hidentity : routine.identity = first + sitesOf body.nodes)
      (hline : routine.unit.lastLine? = some (endLine body line)) :
      Lowered table slots first (.node (.function none parameters body line))
        [.plain (.constant word) line]
  | named {first : Nat} {name : String} {parameters : List String} {body : Block Node} {line : UInt32}
      {word nameWord : Word} {routine : Routine}
      (hword : table.constant? word = some (.function (.compiled routine)))
      (hidentity : routine.identity = first + sitesOf body.nodes)
      (hline : routine.unit.lastLine? = some (endLine body line))
      (hname : table.text? nameWord = some name) :
      Lowered table slots first (.node (.function (some name) parameters body line))
        [.plain (.constant word) line, .plain .duplicate line, .plain (.register nameWord) line]
  | call {first : Nat} {callee : Node} {arguments : List Node} {line : UInt32}
      {calleeCode argumentCode : Fragment}
      (hcallee : Lowered table slots first (.value callee) calleeCode)
      (harguments : Lowered table slots (first + callee.sites) (.values arguments) argumentCode) :
      Lowered table slots first (.node (.call callee arguments line))
        (calleeCode ++ undefinedAt line ++ argumentCode ++
          [.plain (.call (UInt32.ofNat arguments.length)) line])
  | methodCall {first : Nat} {receiver : Node} {name : String} {arguments : List Node} {line : UInt32}
      {receiverCode argumentCode : Fragment} {word : Word}
      (hreceiver : Lowered table slots first (.value receiver) receiverCode)
      (hword : table.text? word = some name)
      (harguments : Lowered table slots (first + receiver.sites) (.values arguments) argumentCode) :
      Lowered table slots first (.node (.methodCall receiver name arguments line))
        (receiverCode ++ [.plain .duplicate line, .plain (.get word) line, .plain .swap line] ++
          argumentCode ++ [.plain (.call (UInt32.ofNat arguments.length)) line])
  | ret {first : Nat} {value : Node} {line : UInt32} {code : Fragment}
      (hvalue : Lowered table slots first (.value value) code) :
      Lowered table slots first (.node (.ret value line)) (code ++ [.plain .ret line])
  | conditional {first : Nat} {condition : Node} {thenBlock elseBlock : Block Node} {line : UInt32}
      {conditionCode thenCode elseCode : Fragment}
      (hcondition : Lowered table slots first (.value condition) conditionCode)
      (hthen : Lowered table slots (first + condition.sites) (.statements thenBlock.nodes) thenCode)
      (helse : Lowered table slots (first + condition.sites + sitesOf thenBlock.nodes)
        (.statements elseBlock.nodes) elseCode) :
      Lowered table slots first (.node (.conditional condition thenBlock elseBlock line))
        (branch conditionCode thenCode elseCode line)
  | object {first : Nat} {fields : List (Field Node)} {line : UInt32} {code : Fragment} {word : Word}
      (hfields : Lowered table slots first (.fields fields) code)
      (hword : table.layout? word = some ⟨first + fieldSites fields, fields.map Field.name⟩) :
      Lowered table slots first (.node (.object fields line)) (code ++ [.plain (.new word) line])
  | fieldAccess {first : Nat} {receiver : Node} {name : String} {line : UInt32} {code : Fragment}
      {word : Word} (hreceiver : Lowered table slots first (.value receiver) code)
      (hword : table.text? word = some name) :
      Lowered table slots first (.node (.fieldAccess receiver name line))
        (code ++ [.plain (.get word) line])
  | fieldAssignment {first : Nat} {receiver : Node} {name : String} {value : Node} {line : UInt32}
      {receiverCode valueCode : Fragment} {word : Word}
      (hreceiver : Lowered table slots first (.value receiver) receiverCode)
      (hvalue : Lowered table slots (first + receiver.sites) (.value value) valueCode)
      (hword : table.text? word = some name) :
      Lowered table slots first (.node (.fieldAssignment receiver name value line))
        (receiverCode ++ valueCode ++ [.plain (.put word) line])
  | value {first : Nat} {node : Node} {code : Fragment}
      (hnode : Lowered table slots first (.node node) code) :
      Lowered table slots first (.value node) (valueOf node code)
  | statement {first : Nat} {node : Node} {code : Fragment}
      (hnode : Lowered table slots first (.node node) code) :
      Lowered table slots first (.statement node) (statementOf node code)
  | noValues {first : Nat} : Lowered table slots first (.values []) []
  | values {first : Nat} {node : Node} {rest : List Node} {code restCode : Fragment}
      (hnode : Lowered table slots first (.value node) code)
      (hrest : Lowered table slots (first + node.sites) (.values rest) restCode) :
      Lowered table slots first (.values (node :: rest)) (code ++ restCode)
  | noStatements {first : Nat} : Lowered table slots first (.statements []) []
  | statements {first : Nat} {node : Node} {rest : List Node} {code restCode : Fragment}
      (hnode : Lowered table slots first (.statement node) code)
      (hrest : Lowered table slots (first + node.sites) (.statements rest) restCode) :
      Lowered table slots first (.statements (node :: rest)) (code ++ restCode)
  | noFields {first : Nat} : Lowered table slots first (.fields []) []
  | fields {first : Nat} {field : Field Node} {rest : List (Field Node)} {code restCode : Fragment}
      (hnode : Lowered table slots first (.value field.value) code)
      (hrest : Lowered table slots (first + field.value.sites) (.fields rest) restCode) :
      Lowered table slots first (.fields (field :: rest)) (code ++ restCode)

open Lowering in
/-- A routine is the code of a function. -/
structure Closure.Compiled (closure : Closure) (table : ConstantTable) (routine : Routine) : Prop where
  identity : routine.identity = closure.identity
  name : routine.name = closure.name
  unit : ∃ (strict : Bool) (line last : UInt32) (slots : SlotTable) (code : Fragment),
    SlotTable.allocate closure.parameters closure.body strict line = .ok slots ∧
      Lowered table slots closure.firstSite (.statements closure.body.nodes) code ∧
      routine.unit = Fragment.assemble (code ++ undefinedAt last ++ [.plain .ret last])
        (closure.parameters.length + 1) slots.size

end ScriptMachine
