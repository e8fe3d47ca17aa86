import JsonTree.Binary64.Basic

/-!
# Rounding to binary64

- `divHalfEven`: a quotient rounded to the nearest integer, a half going to the even neighbour.
- `Binary64.nearestRank`: the rank of the magnitude nearest to a non-negative rational, a half
  going to the even rank; a rational that rounds past the last finite magnitude gets a rank from
  `infinityRank` on.
-/

namespace JsonTree

/-- The integer nearest to `n / d`; of two at the same distance the even one. -/
def divHalfEven (n d : Nat) : Nat :=
  if 2 * (n % d) < d ∨ (2 * (n % d) = d ∧ n / d % 2 = 0) then n / d else n / d + 1

/-- The rank nearest to `n / d`. In units of 2^-1074 the rational is `n * unitsPerOne / d`; when
its integer part has `53 + shift` bits, the magnitudes around it lie `2 ^ shift` units apart, and
`shift * 2 ^ 52 + m` is the rank of `m * 2 ^ shift` units. Rounding up to the next power of two
lands on the first rank of the next block, so the carry needs no case of its own. -/
def Binary64.nearestRank (n d : Nat) : Nat :=
  let shift := (n * unitsPerOne / d).log2 - 52
  shift * Nat.pow 2 52 + divHalfEven (n * unitsPerOne) (d * Nat.pow 2 shift)

end JsonTree
