import Std.Data.HashMap
import ScriptMachine.CompileError
import ScriptMachine.Tree.Basic

/-!
# Slots of variables

All variables of a function live in one flat row of slots. Slot zero is the receiver, the parameters
follow in order, and then come the variables that the body declares anywhere, in the order in which the
declarations are evaluated: in both arms of a conditional and inside every expression, but not in the
functions nested in the body, which have slots of their own. `Node.declarations` lists the declarations
in that order, and `SlotTable.allocate` numbers them. A `SlotTable` keeps the names in a row and an index
that finds the slot of a name.

A variable declared again shares its slot, unless the declarations are strict. A parameter may never
repeat another one or the receiver, because a call puts one argument into the slot of each.
-/

set_option autoImplicit false
set_option relaxedAutoImplicit false

namespace ScriptMachine

/-! ### Declarations -/

/-- The declaration of a variable and its source line. -/
structure Declaration where
  name : String
  line : UInt32
  deriving DecidableEq, Repr

mutual

/-- The declarations of a node, those of its parts first, without those of nested functions. -/
def Node.declarations : Node → List Declaration
  | .block body => declarationsOf body.nodes
  | .literal _ _ => []
  | .call callee arguments _ => callee.declarations ++ declarationsOf arguments
  | .access _ _ => []
  | .assignment name value declares line =>
    value.declarations ++ if declares then [⟨name, line⟩] else []
  | .function _ _ _ _ => []
  | .ret value _ => value.declarations
  | .conditional condition thenBlock elseBlock _ =>
    condition.declarations ++ declarationsOf thenBlock.nodes ++ declarationsOf elseBlock.nodes
  | .object fields _ => fieldDeclarations fields
  | .fieldAccess receiver _ _ => receiver.declarations
  | .fieldAssignment receiver _ value _ => receiver.declarations ++ value.declarations
  | .methodCall receiver _ arguments _ => receiver.declarations ++ declarationsOf arguments

/-- The declarations of several nodes in order. -/
def declarationsOf : List Node → List Declaration
  | [] => []
  | node :: rest => node.declarations ++ declarationsOf rest

/-- The declarations in the initial values of fields in order. -/
def fieldDeclarations : List (Field Node) → List Declaration
  | [] => []
  | field :: rest => field.value.declarations ++ fieldDeclarations rest

end

/-! ### Tables of slots -/

/-- The names of the slots of a function in order, with an index that finds the slot of a name. -/
structure SlotTable where
  names : List String
  distinct : names.Nodup
  index : Std.HashMap String Nat
  index_eq : ∀ name : String, index[name]? = names.findIdx? fun slotName ↦ slotName == name

namespace SlotTable

/-- The name of the slot of the receiver. -/
def receiverName : String :=
  "this"

/-- The slot of a name. -/
def slotOf? (table : SlotTable) (name : String) : Option Nat :=
  table.index[name]?

/-- The number of slots. -/
def size (table : SlotTable) : Nat :=
  table.names.length

/-- The table without slots. -/
def empty : SlotTable where
  names := []
  distinct := List.nodup_nil
  index := ∅
  index_eq _ := Std.HashMap.getElem?_empty

/-- The slot of a name, whether it is new, and the table with the name added in that case. -/
def declare (table : SlotTable) (name : String) : Nat × Bool × SlotTable :=
  match hslot : table.index[name]? with
  | some slot => (slot, false, table)
  | none =>
    (table.names.length, true,
      { names := table.names ++ [name]
        distinct := by
          rw [table.index_eq, List.findIdx?_eq_none_iff] at hslot
          refine List.nodup_append.mpr ⟨table.distinct, by simp, ?_⟩
          intro other hother added hadded hsame
          rw [List.mem_singleton.mp hadded] at hsame
          simpa [hsame] using hslot other hother
        index := table.index.insert name table.names.length
        index_eq := fun other ↦ by
          rw [Std.HashMap.getElem?_insert, List.findIdx?_append]
          by_cases hsame : name = other
          · subst hsame
            rw [← table.index_eq, hslot]
            simp
          · rw [table.index_eq]
            simp [hsame] })

/-- The table that holds the slot of the receiver and no other. -/
def ofReceiver : SlotTable :=
  (empty.declare receiverName).2.2

/-- The table with a parameter added, which has to be new. -/
def declareParameter (line : UInt32) (table : SlotTable) (parameter : String) :
    Except CompileError SlotTable :=
  let (_, fresh, next) := table.declare parameter
  if fresh then .ok next else .error (.redeclaration parameter line)

/-- The table with a declared variable added, unless it has a slot. -/
def declareVariable (strict : Bool) (table : SlotTable) (declaration : Declaration) :
    Except CompileError SlotTable :=
  let (_, fresh, next) := table.declare declaration.name
  if !fresh && strict then .error (.redeclaration declaration.name declaration.line) else .ok next

/-- The slots of a function with some parameters, a body and a source line. -/
def allocate (parameters : List String) (body : Block Node) (strict : Bool) (line : UInt32) :
    Except CompileError SlotTable := do
  let table ← parameters.foldlM (declareParameter line) ofReceiver
  (declarationsOf body.nodes).foldlM (declareVariable strict) table

end SlotTable

end ScriptMachine
