import JsonTree.Decimal.Layout

/-!
# Machine numbers

The numbers that a program holds in 64 bits: integers in the range of the signed or of the
unsigned words, and finite binary64 values. The two kinds stay apart: the integer 1 is not the
float 1.0.

- `MachineInt`, `MachineNumber`: the types.
- `MachineNumber.numEq`: equality of kind and value, the two zeros of the floats being equal.
- `MachineNumber.text`: an integer by its digits, a float in the serialized layout.
-/

namespace JsonTree

/-- An integer that fits 64 bits, signed or unsigned. -/
structure MachineInt where
  val : Int
  lower : -0x8000000000000000 ≤ val
  upper : val < 0x10000000000000000
deriving DecidableEq

/-- The integer, if it fits. -/
def MachineInt.ofInt? (n : Int) : Option MachineInt :=
  if h : -0x8000000000000000 ≤ n ∧ n < 0x10000000000000000 then some ⟨n, h.1, h.2⟩ else none

/-- An integer in decimal digits, with a minus if it is negative. -/
def spellInt (n : Int) : List Char :=
  if n < 0 then '-' :: Nat.toDigits 10 n.natAbs else Nat.toDigits 10 n.natAbs

/-- A number of integer kind or of float kind. -/
inductive MachineNumber where
  | int (n : MachineInt)
  | float (x : Finite64)
deriving DecidableEq

namespace MachineNumber

/-- Equality of kind and numeric value. -/
def numEq : MachineNumber → MachineNumber → Bool
  | .int m, .int n => m.val == n.val
  | .float x, .float y => x.numEq y
  | _, _ => false

/-- The characters of the number's text. -/
def spell : MachineNumber → List Char
  | .int n => spellInt n.val
  | .float x => x.spell .serialized

end MachineNumber

end JsonTree
