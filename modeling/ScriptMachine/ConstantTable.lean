import ScriptMachine.Value
import Std.Data.HashMap

/-!
# The constant table

A `ConstantTable` numbers the values that do not fit into a word: the constants of the compiled code
and whatever running code has to put aside. It only ever grows. `ConstantTable.register` gives the
position of a value and appends the value when no entry equals it; scalars are equal by value, functions
and classes by identity, and objects, which are never shared, not at all. Position zero always holds
undefined in a table grown from `ConstantTable.empty`.

The positions of the entries are indexed by `ConstantKey`, and `ConstantTable.positions_eq` keeps the
index equal to a search through the entries, so that nothing else has to be said about it.
-/

set_option autoImplicit false
set_option relaxedAutoImplicit false

namespace ScriptMachine

/-- What two values have in common when they share an entry. -/
inductive ConstantKey where
  | undefined
  | integer (value : Int64)
  | text (content : String)
  | boolean (value : Bool)
  | function (identity : Nat)
  | layout (identity : Nat)
  | globalScope
  deriving DecidableEq, Hashable

/-- The key of a value; an object has none. -/
def Value.constantKey? : Value → Option ConstantKey
  | .undefined => some .undefined
  | .integer value => some (.integer value)
  | .text content => some (.text content)
  | .boolean value => some (.boolean value)
  | .function callee => some (.function callee.identity)
  | .layout shape => some (.layout shape.identity)
  | .object _ => none
  | .globalScope => some .globalScope

/-- A numbered collection of values in which no key occurs twice among the indexed positions. -/
structure ConstantTable where
  entries : Array Value
  positions : Std.HashMap ConstantKey Nat
  positions_eq : ∀ key : ConstantKey,
    positions[key]? = entries.findIdx? fun entry ↦ entry.constantKey? == some key

namespace ConstantTable

/-- The table that holds undefined at position zero and nothing else. -/
def empty : ConstantTable where
  entries := #[.undefined]
  positions := (∅ : Std.HashMap ConstantKey Nat).insert .undefined 0
  positions_eq key := by
    rw [Std.HashMap.getElem?_insert]
    cases key <;> simp [Value.constantKey?]

instance : Inhabited ConstantTable :=
  ⟨empty⟩

/-- The number of entries. -/
def size (table : ConstantTable) : Nat :=
  table.entries.size

/-- The entry at a position. -/
def get? (table : ConstantTable) (index : UInt32) : Option Value :=
  table.entries[index.toNat]?

/-- The position of a value, and the table with the value appended when no entry equals it. -/
def register (table : ConstantTable) (value : Value) : Nat × ConstantTable :=
  let next := table.entries.size
  match hkey : value.constantKey? with
  | none =>
    (next,
      { entries := table.entries.push value
        positions := table.positions
        positions_eq := fun key ↦ by
          rw [table.positions_eq, Array.findIdx?_push, hkey]
          simp })
  | some own =>
    match hposition : table.positions[own]? with
    | some position => (position, table)
    | none =>
      (next,
        { entries := table.entries.push value
          positions := table.positions.insert own next
          positions_eq := fun key ↦ by
            rw [Std.HashMap.getElem?_insert, Array.findIdx?_push, hkey]
            by_cases hsame : own = key
            · subst hsame
              rw [← table.positions_eq, hposition]
              simp [next]
            · rw [table.positions_eq]
              simp [hsame] })

end ConstantTable

end ScriptMachine
