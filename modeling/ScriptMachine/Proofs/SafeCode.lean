import ScriptMachine.Proofs.CallStack

/-!
# Code that can be run safely

`CodeUnit.Safe` says of an offset of a code unit that an activation which has a number of operands there
never runs out of them, never leaves the slots of its frame and never leaves the code: there is an
operation at the offset, the operands are enough for it, and every offset at which it can go on lies further
on and is safe with the operands that it leaves. As every jump goes forward, this is an induction from the
end of the code. More constants leave safe code safe (`CodeUnit.Safe.mono`).
-/

set_option autoImplicit false
set_option relaxedAutoImplicit false

namespace ScriptMachine

namespace Operation

/-- The operands that an operation takes away. -/
def pops : Operation → Nat
  | .push _ | .lookup _ | .load _ | .goto _ => 0
  | .register _ | .store _ | .duplicate | .pop | .ret | .jumpIfFalse _ | .get _ => 1
  | .swap | .put _ => 2
  | .call argumentCount => argumentCount + 2
  | .new layout => layout.fieldCount

/-- The operands that an operation adds after that. A call adds the result when it is over. -/
def pushes : Operation → Nat
  | .push _ | .lookup _ | .load _ | .call _ | .new _ | .get _ => 1
  | .duplicate | .swap => 2
  | .register _ | .store _ | .pop | .ret | .goto _ | .jumpIfFalse _ | .put _ => 0

/-- The slot that an operation reads or writes. -/
def slot? : Operation → Option Nat
  | .load slot | .store slot => some slot
  | _ => none

/-- The name that an operation binds. -/
def bound? : Operation → Option String
  | .register name => some name
  | _ => none

/-- The offsets at which the activation can go on, given the one behind the operation. -/
def successors (next : Nat) : Operation → List Nat
  | .ret => []
  | .goto target => [target]
  | .jumpIfFalse target => [target, next]
  | _ => [next]

/-- An operation leaves at most one operand more than it finds. -/
theorem pushes_le (operation : Operation) : operation.pushes ≤ operation.pops + 1 := by
  cases operation <;> rw [pushes, pops] <;> omega

/-- Among enough operands for a call, the receiver and the value that is called lie below the arguments. -/
theorem exists_drop_of_call {argumentCount : Nat} {operands : List Value}
    (hpops : pops (.call argumentCount) ≤ operands.length) :
    ∃ (receiver callee : Value) (rest : List Value),
      operands.drop argumentCount = receiver :: callee :: rest := by
  rw [pops] at hpops
  rw [List.drop_eq_getElem_cons (by omega), List.drop_eq_getElem_cons (by omega)]
  exact ⟨_, _, _, rfl⟩

end Operation

/-- An activation at an offset with a number of operands never gets stuck in its own code. -/
inductive CodeUnit.Safe (unit : CodeUnit) (table : ConstantTable) : (offset depth : Nat) → Prop where
  | step {offset depth next : Nat} {operation : Operation}
      (hoperation : unit.operationAt table offset = some (operation, next))
      (hpops : operation.pops ≤ depth)
      (hslot : ∀ slot ∈ operation.slot?, slot < unit.slotCount)
      (hforward : ∀ target ∈ operation.successors next, offset < target)
      (hsafe : ∀ target ∈ operation.successors next,
        unit.Safe table target (depth - operation.pops + operation.pushes)) :
      unit.Safe table offset depth

/-- More constants leave safe code safe. -/
theorem CodeUnit.Safe.mono {unit : CodeUnit} {table larger : ConstantTable}
    (hextends : table.Extends larger) {offset depth : Nat} (hsafe : unit.Safe table offset depth) :
    unit.Safe larger offset depth := by
  induction hsafe with
  | step hoperation hpops hslot hforward _ ih =>
    exact .step (CodeUnit.operationAt_mono hextends hoperation) hpops hslot hforward ih

/-- A code unit can be run from its beginning: its parameters have slots, and its offsets fit into a
word. -/
structure CodeUnit.Verified (unit : CodeUnit) (table : ConstantTable) : Prop where
  parameters : unit.parameterCount ≤ unit.slotCount
  receiver : 0 < unit.parameterCount
  size : unit.code.size < 4294967295
  safe : unit.Safe table 0 0

/-- More constants leave code that can be run as it is. -/
theorem CodeUnit.Verified.mono {unit : CodeUnit} {table larger : ConstantTable}
    (hextends : table.Extends larger) (hverified : unit.Verified table) : unit.Verified larger :=
  ⟨hverified.parameters, hverified.receiver, hverified.size, hverified.safe.mono hextends⟩

end ScriptMachine
