import JsonTree.MachineNumber
import JsonTree.Tree.Equality

/-!
# Data

A datum is a JSON value whose numbers are machine numbers.

- `Datum.ofBinary64`: the datum of a float, null for one that is not finite.
- `Datum.object`: an object from pairs with any repetition of keys, in the order of the keys' first
  places.
- `Datum.same`: equality up to the order of members, with numeric equality of floats.
-/

namespace JsonTree

/-- A JSON value with machine numbers. -/
abbrev Datum := Tree MachineNumber

namespace Datum

/-- A finite float as a number; no datum but null stands for the others. -/
def ofBinary64 : Binary64 → Datum
  | .finite x => .num (.float x)
  | .nonFinite _ => .null

/-- The object of pairs: a repeated key keeps its last value, at its first place. -/
def object (pairs : List (String × Datum)) : Datum := .obj (Members.ofSets pairs)

/-- Equality up to the order of members; integers and floats are never equal. -/
def same (a b : Datum) : Bool := Tree.eqBy MachineNumber.numEq a b

end Datum

end JsonTree
