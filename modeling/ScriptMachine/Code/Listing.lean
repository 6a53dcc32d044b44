import ScriptMachine.Code.Opcode
import ScriptMachine.Code.Unit
import ScriptMachine.ConstantTable
import ScriptMachine.Text.Quoted
import ScriptMachine.Word

/-!
# Listings

`CodeUnit.listing` shows a code unit one instruction per line: the offset in at least four digits, the
mnemonic, the operand, and the source line where it differs from that of the instruction before. An
operand that numbers something is shown as a number, and every other one as what its word stands for
(`describeWord`). A word that is no opcode is shown by itself, and so is an operand that is missing.
-/

set_option autoImplicit false
set_option relaxedAutoImplicit false

namespace ScriptMachine

/-- What a word stands for: an integer, a heap index, or a constant, texts between quotes. -/
def describeWord (constants : ConstantTable) (word : Word) : String :=
  match word.kind with
  | .smallInteger value => toString value.toNat
  | .reference index => "@" ++ toString index.toNat
  | .constant index =>
    match constants.get? index with
    | some (.text content) => Text.quote content
    | some value => value.toText
    | none => "#" ++ toString index.toNat ++ "?"

/-- Whether the operand of an opcode is a number rather than a word with a tag. -/
def Opcode.operandIsNumber : Opcode → Bool
  | .load | .store | .call | .goto | .jumpIfFalse => true
  | _ => false

/-- An offset in at least four digits. -/
def offsetText (offset : Nat) : String :=
  let digits := toString offset
  String.ofList (List.replicate (4 - digits.length) '0') ++ digits

/-- The operand of an instruction with a space in front, and nothing for an opcode that stands alone. -/
def operandText (constants : ConstantTable) (opcode : Opcode) (operand : Option UInt32) : String :=
  if opcode.takesOperand then
    match operand with
    | none => " <missing>"
    | some word =>
      if opcode.operandIsNumber then " " ++ toString word.toNat
      else " " ++ describeWord constants ⟨word⟩
  else ""

/-- The remark on a source line, where it differs from the one shown last. -/
def lineRemark (shown : Option UInt32) (line : UInt32) : String :=
  if shown = some line then "" else "  ; line " ++ toString line.toNat

namespace CodeUnit

/-- The lines of a listing from an offset on, given the source line shown last, in at most a number of
lines. -/
def listingLines (unit : CodeUnit) (constants : ConstantTable) :
    (count offset : Nat) → (shown : Option UInt32) → List String
  | 0, _, _ => []
  | count + 1, offset, shown =>
    match unit.code[offset]? with
    | none => []
    | some number =>
      match Opcode.ofNumber? number with
      | none =>
        (offsetText offset ++ "  <unknown " ++ toString number.toNat ++ ">") ::
          unit.listingLines constants count (offset + 1) shown
      | some opcode =>
        let line := unit.lineAt offset
        (offsetText offset ++ "  " ++ opcode.mnemonic ++
            operandText constants opcode unit.code[offset + 1]? ++ lineRemark shown line) ::
          unit.listingLines constants count (offset + opcode.size) (some line)

/-- The listing of a code unit. A unit has no more instructions than words. -/
def listing (unit : CodeUnit) (constants : ConstantTable) : String :=
  String.join ((unit.listingLines constants unit.code.size 0 none).map fun line ↦ line ++ "\n")

end CodeUnit

end ScriptMachine
