import JsonTree.Binary64.Rounding

/-!
# Decimals

A non-negative decimal `coeff * 10 ^ exp`, and its nearest binary64 value.

- `Decimal.nearestRank`: the rank of the nearest magnitude, for coefficients and exponents of any
  size.
- `Decimal.toBinary64`: the nearest value of a sign.
-/

namespace JsonTree

/-- The number `coeff * 10 ^ exp`. -/
structure Decimal where
  coeff : Nat
  exp : Int
deriving DecidableEq

namespace Decimal

/-- The rank of the magnitude nearest to the decimal. Three cases are answered without forming a
power of ten: zero; from 10^309 on everything is past the finite magnitudes; and below 2^-1076,
which `coeff < 2 ^ (log2 coeff + 1)` and `2 ^ 3 < 10` bound, everything rounds to zero. -/
def nearestRank (d : Decimal) : Nat :=
  if d.coeff = 0 then 0
  else if 308 < d.exp then Binary64.infinityRank
  else if (d.coeff.log2 + 1077 : Nat) ≤ 3 * -d.exp then 0
  else Binary64.nearestRank (d.coeff * Nat.pow 10 d.exp.toNat) (Nat.pow 10 (-d.exp).toNat)

/-- The binary64 value nearest to the decimal with the given sign, ties going to the even rank. -/
def toBinary64 (neg : Bool) (d : Decimal) : Binary64 := .ofRank neg d.nearestRank

end Decimal

end JsonTree
