import ScriptMachine.Engine
import ScriptMachine.Proofs.LikeWorlds

/-!
# Programs and values without lines

`Script.unlined` takes the source lines away from a script, and `Routine.unlined` the line table from a compiled
function. Two values are equal up to line tables when they are the same without them, and then no builtin operation
tells them apart: they are alike in the sense of `Likeness.relined` (`Value.like_relined_iff`).

`ActsTogether` compares two computations step by step (`ActsTogether.bind`): from related states they come to related
answers or to related faults, and to related states again.

Two constant tables that are equal up to line tables number values alike (`ConstantTable.Relined.box`), and words have
the same values over them up to line tables (`decode_relined`).
-/

set_option autoImplicit false
set_option relaxedAutoImplicit false

namespace ScriptMachine

/-! ### Computations in related states -/

section ActingTogether

variable {ε σ α β : Type} {states : σ → σ → Prop} {faults : ε → ε → Prop} {answers : α → α → Prop}
  {results : β → β → Prop}

/-- Two computations end together: both with an answer or both with a fault, in states that are related. -/
inductive EndsTogether (states : σ → σ → Prop) (faults : ε → ε → Prop) (answers : α → α → Prop) :
    EStateM.Result ε σ α → EStateM.Result ε σ α → Prop where
  | ok {answer answer' : α} {state state' : σ} (hanswers : answers answer answer') (hstates : states state state') :
      EndsTogether states faults answers (.ok answer state) (.ok answer' state')
  | error {fault fault' : ε} {state state' : σ} (hfaults : faults fault fault') (hstates : states state state') :
      EndsTogether states faults answers (.error fault state) (.error fault' state')

/-- Two computations that start in related states end together. -/
def ActsTogether (states : σ → σ → Prop) (faults : ε → ε → Prop) (answers : α → α → Prop)
    (part part' : EStateM ε σ α) : Prop :=
  ∀ state state' : σ, states state state' → EndsTogether states faults answers (part state) (part' state')

namespace ActsTogether

theorem pure {answer answer' : α} (hanswers : answers answer answer') :
    ActsTogether states faults answers (Pure.pure answer) (Pure.pure answer') :=
  fun _ _ hstates ↦ .ok hanswers hstates

theorem throw {fault fault' : ε} (hfaults : faults fault fault') :
    ActsTogether states faults answers (throwThe ε fault) (throwThe ε fault') :=
  fun _ _ hstates ↦ .error hfaults hstates

theorem bind {part part' : EStateM ε σ α} {rest rest' : α → EStateM ε σ β}
    (hpart : ActsTogether states faults answers part part')
    (hrest : ∀ answer answer' : α, answers answer answer' →
      ActsTogether states faults results (rest answer) (rest' answer')) :
    ActsTogether states faults results (part >>= rest) (part' >>= rest') := by
  intro state state' hstates
  have hends := hpart state state' hstates
  simp only [Bind.bind, EStateM.bind]
  generalize part state = result at hends
  generalize part' state' = result' at hends
  cases hends with
  | ok hanswers hnext => exact hrest _ _ hanswers _ _ hnext
  | error hfaults hnext => exact .error hfaults hnext

end ActsTogether

end ActingTogether

/-! ### Trees without lines -/

mutual

/-- A node with line zero everywhere. -/
def Node.unlined : Node → Node
  | .block body => .block ⟨unlinedOf body.nodes, 0⟩
  | .literal value _ => .literal value 0
  | .call callee arguments _ => .call callee.unlined (unlinedOf arguments) 0
  | .access name _ => .access name 0
  | .assignment name value declares _ => .assignment name value.unlined declares 0
  | .function name parameters body _ => .function name parameters ⟨unlinedOf body.nodes, 0⟩ 0
  | .ret value _ => .ret value.unlined 0
  | .conditional condition thenBlock elseBlock _ =>
    .conditional condition.unlined ⟨unlinedOf thenBlock.nodes, 0⟩ ⟨unlinedOf elseBlock.nodes, 0⟩ 0
  | .object fields _ => .object (unlinedFields fields) 0
  | .fieldAccess receiver name _ => .fieldAccess receiver.unlined name 0
  | .fieldAssignment receiver name value _ => .fieldAssignment receiver.unlined name value.unlined 0
  | .methodCall receiver name arguments _ => .methodCall receiver.unlined name (unlinedOf arguments) 0

/-- Several nodes with line zero everywhere. -/
def unlinedOf : List Node → List Node
  | [] => []
  | node :: rest => node.unlined :: unlinedOf rest

/-- Fields with line zero everywhere. -/
def unlinedFields : List (Field Node) → List (Field Node)
  | [] => []
  | field :: rest => ⟨field.name, field.value.unlined⟩ :: unlinedFields rest

end

/-- A block with line zero everywhere. -/
def Block.unlined (body : Block Node) : Block Node :=
  ⟨unlinedOf body.nodes, 0⟩

/-- A script with line zero everywhere. -/
def Script.unlined (script : Script) : Script :=
  ⟨script.body.unlined⟩

/-- An error of the compiler with line zero. -/
def CompileError.unlined : CompileError → CompileError
  | .redeclaration name _ => .redeclaration name 0
  | .unresolvedLocal name _ => .unresolvedLocal name 0
  | .duplicateField name _ => .duplicateField name 0

/-! ### Functions without line tables -/

/-- A code unit with an empty line table. -/
def CodeUnit.unlined (unit : CodeUnit) : CodeUnit :=
  { unit with lines := #[] }

/-- A compiled function with an empty line table. -/
def Routine.unlined (routine : Routine) : Routine :=
  { routine with unit := routine.unit.unlined }

/-- A function with an empty line table. -/
def Function.unlined : Function → Function
  | .native identity name operation => .native identity name operation
  | .compiled routine => .compiled routine.unlined

/-- A value with an empty line table, if it is a function. -/
def Value.unlined : Value → Value
  | .function callee => .function callee.unlined
  | value => value

/-- A located fault with line zero. -/
def LocatedFault.unlined (located : LocatedFault) : LocatedFault :=
  { located with line := 0 }

/-- Functions without line tables have all that calls and errors need of them. -/
theorem Routine.unlined_eq_iff {routine routine' : Routine} :
    routine.unlined = routine'.unlined ↔
      routine.identity = routine'.identity ∧ routine.name = routine'.name ∧ routine.unit.code = routine'.unit.code ∧
        routine.unit.parameterCount = routine'.unit.parameterCount ∧
        routine.unit.slotCount = routine'.unit.slotCount := by
  simp [unlined, CodeUnit.unlined]

@[simp] theorem Function.identity_unlined (callee : Function) : callee.unlined.identity = callee.identity := by
  cases callee <;> rfl

@[simp] theorem Function.name_unlined (callee : Function) : callee.unlined.name = callee.name := by
  cases callee <;> rfl

/-- Line tables make no difference for the key of a constant. -/
@[simp] theorem Value.constantKey?_unlined (value : Value) : value.unlined.constantKey? = value.constantKey? := by
  cases value
  case function callee => exact congrArg (fun identity ↦ some (ConstantKey.function identity)) callee.identity_unlined
  all_goals rfl

/-! ### Equality up to line tables -/

/-- Functions stand for each other that are equal up to line tables, and each class stands for itself. -/
def Likeness.relined : Likeness :=
  ⟨fun first second ↦ first.unlined = second.unlined, Eq⟩

/-- Line tables do not show. -/
theorem Likeness.faithful_relined : Likeness.relined.Faithful where
  functionName {first second} hfunctions := by
    rw [← first.name_unlined, hfunctions, second.name_unlined]
  functionIdentity {first second other another} hfunctions hothers := by
    rw [← first.identity_unlined, hfunctions, second.identity_unlined, ← other.identity_unlined, hothers,
      another.identity_unlined]
  layoutFields hlayouts := congrArg Class.fields hlayouts
  layoutIdentity hlayouts hothers := by rw [hlayouts, hothers]

/-- Values are equal up to line tables when they are alike in the sense of `Likeness.relined`. -/
theorem Value.like_relined_iff {value value' : Value} :
    value.Like .relined value' ↔ value.unlined = value'.unlined := by
  constructor
  · intro hlike
    cases hlike
    case function hfunctions => exact congrArg Value.function hfunctions
    case layout hlayouts => exact congrArg Value.layout hlayouts
    case object index hlayouts => exact congrArg (fun layout ↦ Value.object ⟨index, layout⟩) hlayouts
    all_goals rfl
  · intro hsame
    cases value <;> cases value' <;> simp only [unlined, Value.function.injEq, reduceCtorEq] at hsame
    case function.function callee callee' => exact .function hsame
    all_goals cases hsame
    case layout.layout.refl layout => exact .layout rfl
    case object.object.refl reference => exact .object reference.index rfl
    all_goals constructor

namespace Value.Like

variable {value value' : Value}

theorem typeName_eq {likeness : Likeness} (hlike : value.Like likeness value') :
    value.typeName = value'.typeName := by
  cases hlike <;> rfl

theorem inlineWord?_eq {likeness : Likeness} (hlike : value.Like likeness value') :
    value.inlineWord? = value'.inlineWord? := by
  cases hlike <;> rfl

end Value.Like

/-- Rows of values are equal up to line tables when they are alike one by one. -/
theorem like_of_map_unlined {values values' : List Value}
    (hvalues : values.map Value.unlined = values'.map Value.unlined) :
    List.Forall₂ (Value.Like .relined) values values' := by
  rw [← List.forall₂_eq_eq_eq, List.forall₂_map_left_iff, List.forall₂_map_right_iff] at hvalues
  exact hvalues.imp fun _ _ hvalue ↦ Value.like_relined_iff.mpr hvalue

/-- A function of the host that makes no difference between functions that are equal up to line tables. The host could
look into the code of a function that it is given. -/
def HostFunction.IgnoresLines (behaviour : HostFunction) : Prop :=
  behaviour.Like .relined behaviour

/-! ### Constant tables -/

namespace ConstantTable

/-- A value whose key is found keeps its position. -/
theorem register_of_found {table : ConstantTable} {value : Value} {position : Nat}
    (hfound : value.constantKey?.bind (fun key ↦ table.positions[key]?) = some position) :
    table.register value = (position, table) := by
  obtain ⟨key, hkey, hposition⟩ := Option.bind_eq_some_iff.mp hfound
  unfold register
  dsimp only
  split
  case h_1 hnone =>
    rw [hnone] at hkey
    cases hkey
  case h_2 own hown =>
    obtain rfl := Option.some.inj (hown.symm.trans hkey)
    split
    case h_1 other hother => rw [Option.some.inj (hother.symm.trans hposition)]
    case h_2 hnone =>
      rw [hnone] at hposition
      cases hposition

/-- A value whose key is not found is appended. -/
theorem register_of_not_found {table : ConstantTable} {value : Value}
    (hfound : value.constantKey?.bind (fun key ↦ table.positions[key]?) = none) :
    (table.register value).1 = table.entries.size ∧ (table.register value).2.entries = table.entries.push value := by
  unfold register
  dsimp only
  split
  case h_1 hnone => exact ⟨rfl, rfl⟩
  case h_2 own hown =>
    split
    case h_1 position hposition =>
      rw [hown, Option.bind_some, hposition] at hfound
      cases hfound
    case h_2 hnone => exact ⟨rfl, rfl⟩

end ConstantTable

/-- Two constant tables are equal up to line tables. -/
def ConstantTable.Relined (table table' : ConstantTable) : Prop :=
  table.entries.map Value.unlined = table'.entries.map Value.unlined

namespace ConstantTable.Relined

variable {table table' : ConstantTable}

theorem refl (table : ConstantTable) : table.Relined table :=
  rfl

/-- The tables have equal values up to line tables at every position. -/
theorem rel_entries (hrelined : table.Relined table') (position : Nat) :
    Option.Rel (Value.Like .relined) table.entries[position]? table'.entries[position]? := by
  have hsame := congrArg (fun entries ↦ entries[position]?) hrelined
  simp only [Array.getElem?_map] at hsame
  cases hentry : table.entries[position]? with
  | none =>
    rw [hentry, Option.map_none, eq_comm, Option.map_eq_none_iff] at hsame
    rw [hsame]
    exact .none
  | some value =>
    rw [hentry, Option.map_some, eq_comm, Option.map_eq_some_iff] at hsame
    obtain ⟨value', hentry', hvalue⟩ := hsame
    rw [hentry']
    exact .some (Value.like_relined_iff.mpr hvalue.symm)

theorem size_eq (hrelined : table.Relined table') : table.entries.size = table'.entries.size := by
  have hsame := congrArg Array.size hrelined
  simpa using hsame

/-- The tables find keys at the same positions. -/
theorem positions_eq (hrelined : table.Relined table') (key : ConstantKey) :
    table.positions[key]? = table'.positions[key]? := by
  have hkeys : ∀ entries : Array Value, (entries.findIdx? fun entry ↦ entry.constantKey? == some key) =
      (entries.map Value.unlined).findIdx? fun entry ↦ entry.constantKey? == some key := by
    intro entries
    rw [Array.findIdx?_map]
    simp [Function.comp_def]
  rw [table.positions_eq, table'.positions_eq, hkeys table.entries, hkeys table'.entries, hrelined]

/-- The tables give the same word to values that are equal up to line tables. -/
theorem box (hrelined : table.Relined table') {value value' : Value} (hvalue : value.unlined = value'.unlined) :
    (table.box value).1 = (table'.box value').1 ∧ (table.box value).2.Relined (table'.box value').2 := by
  have hkey : value.constantKey? = value'.constantKey? := by
    rw [← value.constantKey?_unlined, hvalue, value'.constantKey?_unlined]
  have hposition : value.constantKey?.bind (fun key ↦ table.positions[key]?) =
      value'.constantKey?.bind fun key ↦ table'.positions[key]? := by
    rw [hkey]
    exact congrArg _ (funext hrelined.positions_eq)
  unfold ConstantTable.box
  dsimp only
  cases hfound : value.constantKey?.bind fun key ↦ table.positions[key]? with
  | some position =>
    have hfound' := hposition.symm.trans hfound
    rw [register_of_found hfound, register_of_found hfound']
    exact ⟨rfl, hrelined⟩
  | none =>
    have hfound' := hposition.symm.trans hfound
    obtain ⟨hnext, hentries⟩ := register_of_not_found hfound
    obtain ⟨hnext', hentries'⟩ := register_of_not_found hfound'
    rw [hnext, hnext', hrelined.size_eq]
    refine ⟨rfl, ?_⟩
    unfold Relined
    rw [hentries, hentries', Array.map_push, Array.map_push, hrelined, hvalue]

end ConstantTable.Relined

/-! ### Words -/

/-- Two outcomes are values that are equal up to line tables, or the same fault. -/
theorem decodeWithin_relined {table table' : ConstantTable} (hrelined : table.Relined table') (heap : Heap)
    (steps : Nat) (word : Word) :
    Value.LikeOutcome .relined (decodeWithin table heap steps word) (decodeWithin table' heap steps word) := by
  induction steps generalizing word with
  | zero => exact .error _
  | succ steps ih =>
    unfold decodeWithin
    cases word.kind with
    | smallInteger value => exact .ok (.integer _)
    | constant index =>
      have hentries := hrelined.rel_entries index.toNat
      dsimp only [ConstantTable.get?]
      generalize table.entries[index.toNat]? = entry at hentries
      generalize table'.entries[index.toNat]? = entry' at hentries
      cases hentries with
      | none => exact .error _
      | some hvalue => exact .ok hvalue
    | reference index =>
      dsimp only
      cases heap.classWord index with
      | error fault => exact .error _
      | ok header =>
        have hheader := ih header
        dsimp only
        generalize decodeWithin table heap steps header = result at hheader
        generalize decodeWithin table' heap steps header = result' at hheader
        cases hheader with
        | error fault => exact .error _
        | ok hvalue =>
          cases hvalue
          case layout hlayouts => exact .ok (.object index hlayouts)
          all_goals exact .error _

/-- A word has the same value over both tables, up to line tables, or the same fault. -/
theorem decode_relined {table table' : ConstantTable} (hrelined : table.Relined table') (heap : Heap) (word : Word) :
    Value.LikeOutcome .relined (decode table heap word) (decode table' heap word) :=
  decodeWithin_relined hrelined heap _ word

end ScriptMachine
