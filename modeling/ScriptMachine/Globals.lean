import ScriptMachine.Value
import Std.Data.HashMap

/-!
# Globals

The `Globals` bind names to values. A name that is not bound has the value undefined, so
`Globals.lookup` always answers; `Globals.contains` tells an unbound name from one that is bound to
undefined. `Globals.names` lists the bound names in the order of their code points.
-/

set_option autoImplicit false
set_option relaxedAutoImplicit false

namespace ScriptMachine

/-- The values of the global names. -/
structure Globals where
  bindings : Std.HashMap String Value

namespace Globals

/-- No name is bound. -/
def empty : Globals :=
  ⟨∅⟩

instance : Inhabited Globals :=
  ⟨empty⟩

/-- The globals with a name bound to a value, whatever it was bound to before. -/
def register (globals : Globals) (name : String) (value : Value) : Globals :=
  ⟨globals.bindings.insert name value⟩

/-- The value of a name. -/
def lookup (globals : Globals) (name : String) : Value :=
  globals.bindings.getD name .undefined

/-- Whether a name is bound. -/
def contains (globals : Globals) (name : String) : Bool :=
  globals.bindings.contains name

/-- The bound names in order. -/
def names (globals : Globals) : List String :=
  globals.bindings.keys.mergeSort fun left right ↦ decide (left ≤ right)

/-- The name registered last has the value registered last, and every other name keeps its own. -/
theorem lookup_register (globals : Globals) (registered name : String) (value : Value) :
    (globals.register registered value).lookup name =
      if registered == name then value else globals.lookup name := by
  simp [register, lookup, Std.HashMap.getD_insert]

end Globals

end ScriptMachine
