import ScriptMachine.Proofs.AssembledCode
import ScriptMachine.Proofs.SafeCode
import ScriptMachine.Proofs.Snapshot
import ScriptMachine.Lowering

/-!
# Verifiable code

`CodeUnit.Verifiable` is what a verifier asks of a code unit before any of it runs. The words fall apart into
instructions, and the last two return undefined. Every operand stands for what its instruction needs, by
`Instruction.Means`. There is one number of operands for every instruction, whichever way leads there, and it
is enough for the instruction; jumps go forward to other instructions.

The machine reads the same operations as long as all numbers fit into words
(`CodeUnit.ConsistsOf.exists_operationAt`).

The compiler puts fragments together in a few ways only. `Fragment.Flows` says of each of them how many
operands there are before and after, and `Fragment.Flows.exists_balanced` finds the number for every
instruction inside, also for those behind a return, which never run.
-/

set_option autoImplicit false
set_option relaxedAutoImplicit false

namespace ScriptMachine

/-! ### Operands -/

/-- The operand of an instruction stands for what its operation needs. The word of a text, of a class, and of a
constant that is no small integer was made for an entry of the table. A jump carries the low half of a target,
and a call that of a number of arguments; below 2 ^ 32 that is the number itself. -/
inductive Instruction.Means (table : ConstantTable) : Instruction → Operation → Prop where
  | integer {word : Word} {value : Int64} (hword : Word.ofInteger? value = some word) :
      Means table (.constant word) (.push (.integer value))
  | constant {word : Word} {value : Value} (hword : table.Boxed word value) :
      Means table (.constant word) (.push value)
  | lookup {word : Word} {name : String} (hword : table.Boxed word (.text name)) :
      Means table (.lookup word) (.lookup name)
  | register {word : Word} {name : String} (hword : table.Boxed word (.text name)) :
      Means table (.register word) (.register name)
  | load (slot : UInt32) : Means table (.load slot) (.load slot.toNat)
  | store (slot : UInt32) : Means table (.store slot) (.store slot.toNat)
  | duplicate : Means table .duplicate .duplicate
  | pop : Means table .pop .pop
  | swap : Means table .swap .swap
  | call (argumentCount : Nat) : Means table (.call (UInt32.ofNat argumentCount)) (.call argumentCount)
  | ret : Means table .ret .ret
  | goto (target : Nat) : Means table (.goto (UInt32.ofNat target)) (.goto target)
  | jumpIfFalse (target : Nat) : Means table (.jumpIfFalse (UInt32.ofNat target)) (.jumpIfFalse target)
  | new {word : Word} {layout : Class} (hword : table.Boxed word (.layout layout))
      (hfields : layout.fields.Nodup) : Means table (.new word) (.new layout)
  | get {word : Word} {name : String} (hword : table.Boxed word (.text name)) :
      Means table (.get word) (.get name)
  | put {word : Word} {name : String} (hword : table.Boxed word (.text name)) :
      Means table (.put word) (.put name)

/-- More constants leave the meaning of an instruction as it is. -/
theorem Instruction.Means.mono {table larger : ConstantTable} (hextends : table.Extends larger)
    {instruction : Instruction} {operation : Operation} (hmeans : instruction.Means table operation) :
    instruction.Means larger operation := by
  cases hmeans with
  | integer hword => exact .integer hword
  | constant hword => exact .constant (hword.mono hextends)
  | lookup hword => exact .lookup (hword.mono hextends)
  | register hword => exact .register (hword.mono hextends)
  | load slot => exact .load slot
  | store slot => exact .store slot
  | duplicate => exact .duplicate
  | pop => exact .pop
  | swap => exact .swap
  | call argumentCount => exact .call argumentCount
  | ret => exact .ret
  | goto target => exact .goto target
  | jumpIfFalse target => exact .jumpIfFalse target
  | new hword hfields => exact .new (hword.mono hextends) hfields
  | get hword => exact .get (hword.mono hextends)
  | put hword => exact .put (hword.mono hextends)

/-! ### Code units -/

/-- Instructions one behind the other, each with the offset at which it starts. -/
def Instruction.placed : (offset : Nat) → List Instruction → List (Nat × Instruction)
  | _, [] => []
  | offset, instruction :: rest => (offset, instruction) :: placed (offset + instruction.size) rest

/-- An instruction at an offset finds enough operands, for which there are words before it, and leads only to
allowed offsets further on, where there are as many operands as it leaves. -/
def Instruction.Balanced (table : ConstantTable) (depth : Nat → Nat) (allowed : Nat → Prop) (offset : Nat)
    (instruction : Instruction) : Prop :=
  ∃ operation : Operation, instruction.Means table operation ∧ operation.pops ≤ depth offset ∧
    depth offset ≤ offset ∧
    ∀ target ∈ operation.successors (offset + instruction.size), offset < target ∧ allowed target ∧
      depth target = depth offset - operation.pops + operation.pushes

/-- A code unit consists of instructions that a verifier accepts. -/
structure CodeUnit.ConsistsOf (unit : CodeUnit) (table : ConstantTable) (instructions : List Instruction) :
    Prop where
  words : unit.code.toList = instructions.flatMap Instruction.words
  ending : ∃ body : List Instruction, instructions = body ++ [Instruction.constant Word.undefined, .ret]
  parameters : unit.parameterCount ≤ unit.slotCount
  operands : ∀ place ∈ Instruction.placed 0 instructions, unit.instructionAt place.1 = .ok place.2 ∧
    ∃ operation : Operation, place.2.Means table operation ∧
      ∀ slot ∈ operation.slot?, slot < unit.slotCount
  depths : ∃ depth : Nat → Nat, depth 0 = 0 ∧ depth (unit.code.size - 3) = 0 ∧
    ∀ place ∈ Instruction.placed 0 instructions,
      place.2.Balanced table depth (fun target ↦ target ∈ (Instruction.placed 0 instructions).map Prod.fst)
        place.1

/-- A verifier accepts the instructions of a code unit. -/
def CodeUnit.Verifiable (unit : CodeUnit) (table : ConstantTable) : Prop :=
  ∃ instructions : List Instruction, unit.ConsistsOf table instructions

/-- An instruction stays balanced with more constants and more allowed offsets. -/
theorem Instruction.Balanced.mono {table larger : ConstantTable} (hextends : table.Extends larger)
    {depth : Nat → Nat} {allowed more : Nat → Prop} (hallowed : ∀ target : Nat, allowed target → more target)
    {offset : Nat} {instruction : Instruction} (hbalanced : instruction.Balanced table depth allowed offset) :
    instruction.Balanced larger depth more offset := by
  obtain ⟨operation, hmeans, hpops, hwords, hnext⟩ := hbalanced
  exact ⟨operation, hmeans.mono hextends, hpops, hwords, fun target htarget ↦
    ⟨(hnext target htarget).1, hallowed target (hnext target htarget).2.1, (hnext target htarget).2.2⟩⟩

/-- More constants leave verifiable code verifiable. -/
theorem CodeUnit.Verifiable.mono {unit : CodeUnit} {table larger : ConstantTable}
    (hextends : table.Extends larger) (hverifiable : unit.Verifiable table) : unit.Verifiable larger := by
  obtain ⟨instructions, hconsists⟩ := hverifiable
  refine ⟨instructions, hconsists.words, hconsists.ending, hconsists.parameters, fun place hplace ↦ ?_, ?_⟩
  · obtain ⟨hread, operation, hmeans, hslot⟩ := hconsists.operands place hplace
    exact ⟨hread, operation, hmeans.mono hextends, hslot⟩
  · obtain ⟨depth, hfirst, hlast, hbalanced⟩ := hconsists.depths
    exact ⟨depth, hfirst, hlast, fun place hplace ↦
      (hbalanced place hplace).mono hextends fun _ htarget ↦ htarget⟩

/-! ### What the machine reads -/

/-- What a verifier takes an instruction for is what the machine makes of it, as long as the numbers in the
operands fit into words. -/
theorem Instruction.Means.operation?_eq {table : ConstantTable} {instruction : Instruction}
    {operation : Operation} (hmeans : instruction.Means table operation) (htable : table.size ≤ Word.indexLimit)
    {next : Nat} (htargets : ∀ target ∈ operation.successors next, target < 4294967296)
    (hpops : operation.pops < 4294967296) : instruction.operation? table = some operation := by
  have htext : ∀ {word : Word} {name : String}, table.Boxed word (.text name) → table.text? word = some name :=
    fun hword ↦ ConstantTable.text?_eq_some_iff.mpr (hword.constant?_eq htable)
  have hnumber : ∀ {number : Nat}, number < 4294967296 → (UInt32.ofNat number).toNat = number :=
    fun hsmall ↦ UInt32.toNat_ofNat_of_lt' hsmall
  cases hmeans with
  | integer hword =>
    obtain ⟨number, hkind, hvalue⟩ := Word.kind_of_ofInteger? hword
    simp only [operation?, ConstantTable.value?, hkind, hvalue, Option.map_some]
  | constant hword =>
    rw [operation?, ConstantTable.value?_of_constant? (hword.constant?_eq htable)]
    rfl
  | lookup hword => rw [operation?, htext hword]; rfl
  | register hword => rw [operation?, htext hword]; rfl
  | get hword => rw [operation?, htext hword]; rfl
  | put hword => rw [operation?, htext hword]; rfl
  | new hword _ =>
    rw [operation?, ConstantTable.layout?_eq_some_iff.mpr (hword.constant?_eq htable)]
    rfl
  | call argumentCount =>
    rw [Operation.pops] at hpops
    rw [operation?, hnumber (by omega)]
  | goto target => rw [operation?, hnumber (htargets target (List.mem_singleton_self target))]
  | jumpIfFalse target => rw [operation?, hnumber (htargets target List.mem_cons_self)]
  | load | store | duplicate | pop | swap | ret => rfl

/-- The machine finds the operations of a code unit that a verifier accepts, with enough operands for each, as
long as its offsets and the positions of constants fit into words. -/
theorem CodeUnit.ConsistsOf.exists_operationAt {unit : CodeUnit} {table : ConstantTable}
    {instructions : List Instruction} (hconsists : unit.ConsistsOf table instructions)
    (hcode : unit.code.size < 4294967296) (htable : table.size ≤ Word.indexLimit) :
    ∃ depth : Nat → Nat, depth 0 = 0 ∧ ∀ place ∈ Instruction.placed 0 instructions,
      ∃ operation : Operation,
        unit.operationAt table place.1 = some (operation, place.1 + place.2.size) ∧
          operation.pops ≤ depth place.1 ∧
          ∀ target ∈ operation.successors (place.1 + place.2.size), place.1 < target ∧
            target ∈ (Instruction.placed 0 instructions).map Prod.fst ∧
            depth target = depth place.1 - operation.pops + operation.pushes := by
  obtain ⟨depth, hfirst, -, hbalanced⟩ := hconsists.depths
  have hstart : ∀ place ∈ Instruction.placed 0 instructions, place.1 + place.2.size ≤ unit.code.size :=
    fun place hplace ↦ CodeUnit.add_size_le_of_instructionAt (hconsists.operands place hplace).1
  refine ⟨depth, hfirst, fun place hplace ↦ ?_⟩
  obtain ⟨operation, hmeans, hpops, hwords, hnext⟩ := hbalanced place hplace
  have hinside := hstart place hplace
  have hresolved := hmeans.operation?_eq htable (fun target htarget ↦ by
    obtain ⟨found, hfound, rfl⟩ := List.mem_map.mp (hnext target htarget).2.1
    have hbound := hstart found hfound
    omega) (by omega)
  refine ⟨operation, ?_, hpops, hnext⟩
  unfold CodeUnit.operationAt
  rw [(hconsists.operands place hplace).1]
  dsimp only
  rw [hresolved]
  rfl

/-! ### Fragments -/

namespace Fragment

/-- A fragment finds some operands and leaves others. A return is followed by code that never runs, and both
arms of a conditional leave the operands that they find. -/
inductive Flows (table : ConstantTable) (slotCount : Nat) : (before after : Nat) → Fragment → Prop where
  | nil (depth : Nat) : Flows table slotCount depth depth []
  | plain {instruction : Instruction} {operation : Operation} {line : UInt32} {depth : Nat}
      (hmeans : instruction.Means table operation)
      (hslot : ∀ slot ∈ operation.slot?, slot < slotCount)
      (hnext : ∀ next : Nat, operation.successors next = [next])
      (hpushes : operation.pushes ≤ operation.pops + 1) :
      Flows table slotCount (depth + operation.pops) (depth + operation.pushes) [.plain instruction line]
  | ret {line : UInt32} {depth : Nat} : Flows table slotCount (depth + 1) depth [.plain .ret line]
  | append {first second : Fragment} {before between after : Nat}
      (hfirst : Flows table slotCount before between first)
      (hsecond : Flows table slotCount between after second) :
      Flows table slotCount before after (first ++ second)
  | branch {condition thenCode elseCode : Fragment} {line : UInt32} {depth : Nat}
      (hcondition : Flows table slotCount depth (depth + 1) condition)
      (hthen : Flows table slotCount depth depth thenCode)
      (helse : Flows table slotCount depth depth elseCode) :
      Flows table slotCount depth depth (Lowering.branch condition thenCode elseCode line)

/-- The instructions of a fragment at an offset, each with the offset at which it starts. -/
def placed : (offset : Nat) → Fragment → List (Nat × Instruction)
  | _, [] => []
  | offset, emission :: rest => (offset, emission.place offset) :: placed (offset + emission.size) rest

variable {table larger : ConstantTable} {slotCount before after : Nat} {code : Fragment}

/-- An instruction without a slot that is followed by the next one. -/
theorem Flows.straight {instruction : Instruction} {operation : Operation} {line : UInt32} {depth : Nat}
    (hmeans : instruction.Means table operation) (hslot : operation.slot? = none)
    (hnext : ∀ next : Nat, operation.successors next = [next]) :
    Flows table slotCount (depth + operation.pops) (depth + operation.pushes) [.plain instruction line] := by
  refine .plain hmeans (fun slot hmem ↦ ?_) hnext operation.pushes_le
  rw [hslot] at hmem
  cases hmem

theorem Flows.mono (hextends : table.Extends larger) (hflows : Flows table slotCount before after code) :
    Flows larger slotCount before after code := by
  induction hflows with
  | nil depth => exact .nil depth
  | plain hmeans hslot hnext hpushes => exact .plain (hmeans.mono hextends) hslot hnext hpushes
  | ret => exact .ret
  | append _ _ ihFirst ihSecond => exact .append ihFirst ihSecond
  | @branch condition thenCode elseCode line depth _ _ _ ihCondition ihThen ihElse =>
    exact .branch ihCondition ihThen ihElse

/-- Every operand that a fragment leaves more has taken a word of code. -/
theorem Flows.after_le (hflows : Flows table slotCount before after code) :
    after ≤ before + size code := by
  induction hflows with
  | nil => exact Nat.le_add_right _ _
  | @plain instruction operation line depth _ _ _ hpushes =>
    have hsize := instruction.size_pos
    simp only [size, Emission.size]
    omega
  | ret => omega
  | append => rw [size_append]; omega
  | branch => omega

/-! ### Where instructions start -/

theorem placed_append (offset : Nat) (first second : Fragment) :
    placed offset (first ++ second) = placed offset first ++ placed (offset + size first) second := by
  induction first generalizing offset with
  | nil => rfl
  | cons emission rest ih =>
    rw [List.cons_append, placed, ih, placed, size, Nat.add_assoc, List.cons_append]

/-- The instructions of a fragment lie inside it. -/
theorem bounds_of_mem_placed {offset : Nat} {place : Nat × Instruction} (hplace : place ∈ placed offset code) :
    offset ≤ place.1 ∧ place.1 + place.2.size ≤ offset + size code := by
  induction code generalizing offset with
  | nil => cases hplace
  | cons emission rest ih =>
    rw [size]
    rcases List.mem_cons.mp hplace with rfl | hrest
    · rw [Emission.size_place]
      omega
    · have hbounds := ih hrest
      omega

/-- The offset at which an instruction of a fragment starts lies inside the fragment. -/
theorem bounds_of_mem_starts {offset target : Nat}
    (htarget : target ∈ (placed offset code).map Prod.fst) :
    offset ≤ target ∧ target ≤ offset + size code := by
  obtain ⟨place, hplace, rfl⟩ := List.mem_map.mp htarget
  have hbounds := bounds_of_mem_placed hplace
  omega

/-- A fragment begins with an instruction, or there is none. -/
theorem eq_or_mem_starts (offset : Nat) (code : Fragment) :
    offset = offset + size code ∨ offset ∈ (placed offset code).map Prod.fst := by
  cases code with
  | nil => exact Or.inl rfl
  | cons emission rest => exact Or.inr List.mem_cons_self

/-- The jump over the first arm of a conditional leads to the second arm, and the jump at the end of the first
arm leads behind the second one. -/
theorem placed_branch (offset : Nat) (condition thenCode elseCode : Fragment) (line : UInt32) :
    placed offset (Lowering.branch condition thenCode elseCode line) =
      placed offset condition ++
        (offset + size condition,
          .jumpIfFalse (UInt32.ofNat (offset + size condition + 2 + size thenCode + 2))) ::
        (placed (offset + size condition + 2) thenCode ++
          (offset + size condition + 2 + size thenCode,
            .goto (UInt32.ofNat (offset + size condition + 2 + size thenCode + 2 + size elseCode))) ::
          placed (offset + size condition + 2 + size thenCode + 2) elseCode) := by
  simp only [Lowering.branch, placed_append, placed, Emission.size, Emission.place, List.append_assoc,
    List.cons_append, List.nil_append, Nat.add_assoc]

/-! ### Depths -/

/-- There are some operands before and after a fragment at an offset, and its instructions go with that. -/
structure Balanced (table : ConstantTable) (depth : Nat → Nat) (offset : Nat) (code : Fragment)
    (before after : Nat) : Prop where
  first : depth offset = before
  last : depth (offset + size code) = after
  inside : ∀ place ∈ placed offset code, place.2.Balanced table depth
    (fun target ↦ target = offset + size code ∨ target ∈ (placed offset code).map Prod.fst) place.1

namespace Balanced

variable {depth other : Nat → Nat} {offset between : Nat} {first second : Fragment}

/-- Only the depths inside a fragment count. -/
theorem congr (hbalanced : Balanced table depth offset code before after)
    (hsame : ∀ inside : Nat, offset ≤ inside → inside ≤ offset + size code → other inside = depth inside) :
    Balanced table other offset code before after := by
  refine ⟨(hsame _ (Nat.le_refl _) (Nat.le_add_right _ _)).trans hbalanced.first,
    (hsame _ (Nat.le_add_right _ _) (Nat.le_refl _)).trans hbalanced.last, fun place hplace ↦ ?_⟩
  have hbounds := bounds_of_mem_placed hplace
  obtain ⟨operation, hmeans, hpops, hwords, hnext⟩ := hbalanced.inside place hplace
  have hhere := hsame place.1 hbounds.1 (by omega)
  refine ⟨operation, hmeans, hhere.symm ▸ hpops, hhere.symm ▸ hwords, fun target htarget ↦ ?_⟩
  obtain ⟨hforward, hallowed, hdepth⟩ := hnext target htarget
  refine ⟨hforward, hallowed, ?_⟩
  rw [hhere, ← hdepth]
  rcases hallowed with rfl | hstart
  · exact hsame _ (Nat.le_add_right _ _) (Nat.le_refl _)
  · exact hsame target (bounds_of_mem_starts hstart).1 (bounds_of_mem_starts hstart).2

/-- Fragments that go with the same depths can be joined. -/
theorem append (hfirst : Balanced table depth offset first before between)
    (hsecond : Balanced table depth (offset + size first) second between after) :
    Balanced table depth offset (first ++ second) before after := by
  refine ⟨hfirst.first, ?_, fun place hplace ↦ ?_⟩
  · rw [size_append, ← Nat.add_assoc]
    exact hsecond.last
  rw [size_append, ← Nat.add_assoc]
  rw [placed_append] at hplace ⊢
  rw [List.map_append]
  rcases List.mem_append.mp hplace with hold | hnew
  · refine (hfirst.inside place hold).mono (.refl _) fun target htarget ↦ ?_
    rcases htarget with rfl | hstart
    · exact (eq_or_mem_starts _ second).imp_right (List.mem_append_right _)
    · exact Or.inr (List.mem_append_left _ hstart)
  · exact (hsecond.inside place hnew).mono (.refl _) fun target htarget ↦
      htarget.imp_right (List.mem_append_right _)

/-- A single instruction goes with the depths before it and at all offsets to which it leads. -/
theorem of_instruction {instruction : Instruction} {operation : Operation} {line : UInt32}
    (hmeans : instruction.Means table operation) (hbefore : before ≤ offset) (hfirst : depth offset = before)
    (hlast : depth (offset + instruction.size) = after) (hpops : operation.pops ≤ before)
    (hnext : ∀ target ∈ operation.successors (offset + instruction.size),
      target = offset + instruction.size ∧ after = before - operation.pops + operation.pushes) :
    Balanced table depth offset [.plain instruction line] before after := by
  have hpositive := instruction.size_pos
  refine ⟨hfirst, hlast, fun place hplace ↦ ?_⟩
  obtain rfl := List.mem_singleton.mp hplace
  refine ⟨operation, hmeans, hfirst.symm ▸ hpops, hfirst.symm ▸ hbefore, fun target htarget ↦ ?_⟩
  obtain ⟨rfl, hafter⟩ := hnext target htarget
  refine ⟨Nat.lt_add_of_pos_right hpositive, Or.inl rfl, ?_⟩
  rw [show depth (offset + instruction.size) = after from hlast, hafter]
  exact congrArg (fun found ↦ found - operation.pops + operation.pushes) hfirst.symm

/-- The parts of a conditional that go with the same depths go together. -/
theorem branch {condition thenCode elseCode : Fragment} {line : UInt32} {start : Nat}
    (hcondition : Balanced table depth offset condition start (start + 1))
    (hthen : Balanced table depth (offset + size condition + 2) thenCode start start)
    (helse : Balanced table depth (offset + size condition + 2 + size thenCode + 2) elseCode start start)
    (hbefore : start + 1 ≤ offset + size condition) :
    Balanced table depth offset (Lowering.branch condition thenCode elseCode line) start start := by
  refine ⟨hcondition.first, by rw [size_branch]; exact helse.last, fun place hplace ↦ ?_⟩
  have hstarts := congrArg (List.map Prod.fst) (placed_branch offset condition thenCode elseCode line)
  rw [size_branch, hstarts]
  rw [placed_branch] at hplace
  simp only [List.map_append, List.map_cons, List.mem_append, List.mem_cons] at hplace ⊢
  rcases hplace with hinside | rfl | hinside | rfl | hinside
  · refine (hcondition.inside place hinside).mono (.refl _) fun target htarget ↦ ?_
    rcases htarget with rfl | hstart
    · exact Or.inr (Or.inr (Or.inl rfl))
    · exact Or.inr (Or.inl hstart)
  · refine ⟨_, .jumpIfFalse _, hcondition.last.symm ▸ Nat.le_add_left 1 start,
      hcondition.last.symm ▸ hbefore, fun target htarget ↦ ?_⟩
    have hafter : start = depth (offset + size condition) - 1 + 0 := by rw [hcondition.last]; rfl
    rcases List.mem_cons.mp htarget with htaken | hpassed
    · obtain rfl := htaken
      refine ⟨by omega, ?_, helse.first.trans hafter⟩
      exact (eq_or_mem_starts _ elseCode).imp id fun hstart ↦ Or.inr (Or.inr (Or.inr (Or.inr hstart)))
    · obtain rfl : target = offset + size condition + 2 := List.mem_singleton.mp hpassed
      refine ⟨by omega, Or.inr ?_, hthen.first.trans hafter⟩
      rcases eq_or_mem_starts (offset + size condition + 2) thenCode with hempty | hstart
      · exact Or.inr (Or.inr (Or.inr (Or.inl hempty)))
      · exact Or.inr (Or.inr (Or.inl hstart))
  · refine (hthen.inside place hinside).mono (.refl _) fun target htarget ↦ ?_
    rcases htarget with rfl | hstart
    · exact Or.inr (Or.inr (Or.inr (Or.inr (Or.inl rfl))))
    · exact Or.inr (Or.inr (Or.inr (Or.inl hstart)))
  · refine ⟨_, .goto _, Nat.zero_le _, ?_, fun target htarget ↦ ?_⟩
    · rw [show depth (offset + size condition + 2 + size thenCode) = start from hthen.last]
      omega
    obtain rfl := List.mem_singleton.mp htarget
    exact ⟨by omega, Or.inl rfl, helse.last.trans hthen.last.symm⟩
  · refine (helse.inside place hinside).mono (.refl _) fun target htarget ↦ ?_
    exact htarget.imp_right fun hstart ↦ Or.inr (Or.inr (Or.inr (Or.inr hstart)))

end Balanced

namespace Flows

/-- Every instruction of a fragment has a number of operands, whichever way leads there, when there are words
before the fragment for those that it finds. -/
theorem exists_balanced (hflows : Flows table slotCount before after code) {offset : Nat}
    (hbefore : before ≤ offset) :
    ∃ depth : Nat → Nat, Balanced table depth offset code before after := by
  induction hflows generalizing offset with
  | nil depth => exact ⟨fun _ ↦ depth, rfl, rfl, by rintro _ ⟨⟩⟩
  | @plain instruction operation line depth hmeans _ hnext _ =>
    have hpositive := instruction.size_pos
    refine ⟨fun read ↦ if read = offset then depth + operation.pops else depth + operation.pushes,
      Balanced.of_instruction hmeans hbefore (if_pos rfl) (if_neg (by omega)) (Nat.le_add_left _ _)
        fun target htarget ↦ ?_⟩
    rw [hnext] at htarget
    exact ⟨List.mem_singleton.mp htarget, by rw [Nat.add_sub_cancel]⟩
  | @ret line depth =>
    have hpositive := Instruction.ret.size_pos
    exact ⟨fun read ↦ if read = offset then depth + 1 else depth,
      Balanced.of_instruction .ret hbefore (if_pos rfl) (if_neg (by omega)) (Nat.le_add_left _ _)
        (by rintro _ ⟨⟩)⟩
  | @append first second before between after hfirst hsecond ihFirst ihSecond =>
    have hbetween := hfirst.after_le
    obtain ⟨depth, hdepth⟩ := ihFirst hbefore
    obtain ⟨later, hlater⟩ := @ihSecond (offset + size first) (by omega)
    have hjoined : Balanced table (fun read ↦ if read < offset + size first then depth read else later read)
        offset first before between := by
      refine hdepth.congr fun read _ hread ↦ ?_
      split_ifs with hless
      · rfl
      · obtain rfl : read = offset + size first := by omega
        exact hlater.first.trans hdepth.last.symm
    exact ⟨_, hjoined.append (hlater.congr fun read hread _ ↦ if_neg (by omega))⟩
  | @branch condition thenCode elseCode line depth hcondition _ _ ihCondition ihThen ihElse =>
    have hlength := hcondition.after_le
    obtain ⟨first, hfirst⟩ := ihCondition hbefore
    obtain ⟨second, hsecond⟩ := @ihThen (offset + size condition + 2) (by omega)
    obtain ⟨third, hthird⟩ := @ihElse (offset + size condition + 2 + size thenCode + 2) (by omega)
    refine ⟨fun read ↦ if read ≤ offset + size condition then first read
      else if read ≤ offset + size condition + 2 + size thenCode then second read else third read,
      .branch ?_ ?_ ?_ (by omega)⟩
    · exact hfirst.congr fun read _ hread ↦ if_pos hread
    · refine hsecond.congr fun read hread hless ↦ ?_
      rw [if_neg (by omega), if_pos hless]
    · refine hthird.congr fun read hread _ ↦ ?_
      rw [if_neg (by omega), if_neg (by omega)]

/-- Every operand in a fragment stands for what its instruction needs. -/
theorem exists_means (hflows : Flows table slotCount before after code) {offset : Nat}
    {place : Nat × Instruction} (hplace : place ∈ placed offset code) :
    ∃ operation : Operation, place.2.Means table operation ∧ ∀ slot ∈ operation.slot?, slot < slotCount := by
  induction hflows generalizing offset with
  | nil => cases hplace
  | plain hmeans hslot =>
    obtain rfl := List.mem_singleton.mp hplace
    exact ⟨_, hmeans, hslot⟩
  | ret =>
    obtain rfl := List.mem_singleton.mp hplace
    exact ⟨_, .ret, by rintro _ ⟨⟩⟩
  | append _ _ ihFirst ihSecond =>
    rw [placed_append] at hplace
    exact (List.mem_append.mp hplace).elim ihFirst ihSecond
  | branch _ _ _ ihCondition ihThen ihElse =>
    rw [placed_branch] at hplace
    simp only [List.mem_append, List.mem_cons] at hplace
    rcases hplace with hinside | rfl | hinside | rfl | hinside
    · exact ihCondition hinside
    · exact ⟨_, .jumpIfFalse _, by rintro _ ⟨⟩⟩
    · exact ihThen hinside
    · exact ⟨_, .goto _, by rintro _ ⟨⟩⟩
    · exact ihElse hinside

/-- Pushing undefined leaves one operand more. -/
theorem undefinedAt (hundefined : table.entries[0]? = some .undefined) (line : UInt32) (depth : Nat) :
    Flows table slotCount depth (depth + 1) (Lowering.undefinedAt line) :=
  .straight (.constant ⟨0, hundefined, rfl⟩) rfl fun _ ↦ rfl

end Flows

/-! ### Whole functions -/

/-- Instructions alone tell where they start. -/
theorem placed_instructions (offset : Nat) (code : Fragment) :
    Instruction.placed offset ((placed offset code).map Prod.snd) = placed offset code := by
  induction code generalizing offset with
  | nil => rfl
  | cons emission rest ih =>
    rw [placed, List.map_cons, Instruction.placed, Emission.size_place, ih]

/-- The words of a fragment are those of its instructions. -/
theorem wordsAt_eq_flatMap (offset : Nat) (code : Fragment) :
    wordsAt offset code = ((placed offset code).map Prod.snd).flatMap Instruction.words := by
  induction code generalizing offset with
  | nil => rfl
  | cons emission rest ih => rw [wordsAt, ih, placed, List.map_cons, List.flatMap_cons]

/-- Where a fragment stands, all its instructions are read. -/
theorem instructionAt_of_mem_placed {unit : CodeUnit} {offset : Nat} (hcode : unit.HasAt offset code)
    {place : Nat × Instruction} (hplace : place ∈ placed offset code) :
    unit.instructionAt place.1 = .ok place.2 := by
  induction code generalizing offset with
  | nil => cases hplace
  | cons emission rest ih =>
    rcases List.mem_cons.mp hplace with rfl | hrest
    · exact hcode.cons.1
    · exact ih hcode.cons.2 hrest

/-- A body that leaves as many operands as it finds, none, leaves undefined alone when this is pushed at its
end. -/
theorem Flows.exists_balanced_ending {body : Fragment} (hbody : Flows table slotCount 0 0 body)
    (hundefined : table.entries[0]? = some .undefined) (last : UInt32) :
    ∃ depth : Nat → Nat, depth (size body) = 0 ∧
      Balanced table depth 0 (body ++ Lowering.undefinedAt last) 0 1 := by
  obtain ⟨depth, hdepth⟩ := hbody.exists_balanced (Nat.le_refl 0)
  have hjoined : Balanced table (fun read ↦ if read ≤ size body then depth read else 1) 0 body 0 0 :=
    hdepth.congr fun read _ hread ↦ if_pos (by omega)
  have hlast : (if 0 + size body ≤ size body then depth (0 + size body) else 1) = 0 := hjoined.last
  refine ⟨fun read ↦ if read ≤ size body then depth read else 1, by simpa using hlast, hjoined.append ?_⟩
  exact .of_instruction (.constant ⟨0, hundefined, rfl⟩) (Nat.zero_le _) hlast
    (if_neg (by simp [Instruction.size, Instruction.opcode, Opcode.size, Opcode.takesOperand]))
    (Nat.zero_le _) fun target htarget ↦ ⟨List.mem_singleton.mp htarget, rfl⟩

/-- A function whose body leaves as many operands as it finds is verifiable once it returns undefined at its
end. -/
theorem Flows.verifiable {body : Fragment} (hbody : Flows table slotCount 0 0 body)
    (hundefined : table.entries[0]? = some .undefined) {parameterCount : Nat}
    (hparameters : parameterCount ≤ slotCount) (last : UInt32) :
    (assemble (body ++ Lowering.undefinedAt last ++ [.plain .ret last]) parameterCount
      slotCount).Verifiable table := by
  have hpushed : Flows table slotCount 0 1 (Lowering.undefinedAt last) := .undefinedAt hundefined last 0
  have hreturns : Flows table slotCount 1 0 [.plain .ret last] := .ret
  have hcomplete := (hbody.append hpushed).append hreturns
  have hpushedSize : size (body ++ Lowering.undefinedAt last) = size body + 2 := by
    rw [size_append]
    rfl
  have hends : placed 0 (body ++ Lowering.undefinedAt last ++ [.plain .ret last]) =
      placed 0 (body ++ Lowering.undefinedAt last) ++ [(size body + 2, .ret)] := by
    rw [placed_append, hpushedSize, Nat.zero_add]
    rfl
  have hlength : (assemble (body ++ Lowering.undefinedAt last ++ [.plain .ret last]) parameterCount
      slotCount).code.size = size body + 3 := by
    rw [size_assemble, size_append, hpushedSize]
    rfl
  refine ⟨(placed 0 (body ++ Lowering.undefinedAt last ++ [.plain .ret last])).map Prod.snd, ?_,
    ⟨(placed 0 body).map Prod.snd, ?_⟩, hparameters, ?_, ?_⟩
  · rw [toList_assemble, wordsAt_eq_flatMap]
  · rw [hends, placed_append, List.map_append, List.map_append, List.append_assoc]
    rfl
  · rw [placed_instructions]
    exact fun place hplace ↦ ⟨instructionAt_of_mem_placed (hasAt_assemble _ _ _) hplace,
      hcomplete.exists_means hplace⟩
  · rw [placed_instructions, hlength, hends, List.map_append]
    obtain ⟨depth, hlast, hfits⟩ := hbody.exists_balanced_ending hundefined last
    refine ⟨depth, hfits.first, hlast, fun place hplace ↦ ?_⟩
    rcases List.mem_append.mp hplace with hinside | hreturn
    · -- behind the push there is the return
      refine (hfits.inside place hinside).mono (.refl _) fun target htarget ↦ ?_
      rcases htarget with rfl | hstart
      · exact List.mem_append_right _ (List.mem_singleton.mpr ((Nat.zero_add _).trans hpushedSize))
      · exact List.mem_append_left _ hstart
    · obtain rfl := List.mem_singleton.mp hreturn
      have hone : depth (size body + 2) = 1 := by
        rw [← hfits.last, Nat.zero_add, hpushedSize]
      exact ⟨_, .ret, Nat.le_of_eq hone.symm, by rw [hone]; omega, by rintro _ ⟨⟩⟩

end Fragment

end ScriptMachine
