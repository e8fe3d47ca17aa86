import JsonTree.Decimal.Basic

/-!
# The shortest decimal of a binary64 value

Of all decimals that read back as a given magnitude, the one with the fewest digits, and of those
the nearest.

The search runs over the grids of multiples of 10^-1074, 10^-1073, …, from a grid coarser than
the magnitude down to finer ones. On each grid only the two neighbours of the magnitude can read
back. The finest grid holds the magnitude itself, since every unit of 2^-1074 is a multiple of
10^-1074, so the search always ends with a decimal that reads back.

- `Decimal.onGrid?`: the neighbour on one grid that reads back, the nearer one first.
- `Decimal.shortest`: the first such neighbour from coarse to fine.
-/

namespace JsonTree.Decimal

/-- The magnitude of a rank in multiples of 10^-1074, which is exact. -/
def fineUnits (rank : Nat) : Nat := Binary64.units rank * Nat.pow 5 1074

/-- The decimal that reads back as `rank` among the two neighbours of its magnitude in the grid of
multiples of 10^(grid - 1074): the nearer one if both do, the even one if they are as near. -/
def onGrid? (rank grid : Nat) : Option Decimal :=
  let w := fineUnits rank
  let below := w / Nat.pow 10 grid
  let near := divHalfEven w (Nat.pow 10 grid)
  let far := if near = below then below + 1 else below
  ([near, far].map fun c => (⟨c, grid - 1074⟩ : Decimal)).find? (·.nearestRank == rank)

/-- The first decimal that reads back as `rank`, from the given grid to the finest. -/
def shortestFrom (rank : Nat) : Nat → Decimal
  | 0 => ⟨fineUnits rank, -1074⟩
  | grid + 1 => (onGrid? rank (grid + 1)).getD (shortestFrom rank grid)

/-- A grid whose first positive point is above `w` multiples of 10^-1074, because a number of `b`
bits is below `2 ^ b` and `2 ^ 93 < 10 ^ 28`. -/
def coarseGrid (w : Nat) : Nat := (w.log2 + 1) * 28 / 93 + 1

/-- The shortest decimal that reads back as `rank`, the nearest one of that many digits; zero is
`0`. -/
def shortest (rank : Nat) : Decimal :=
  if rank = 0 then ⟨0, 0⟩ else shortestFrom rank (coarseGrid (fineUnits rank))

end JsonTree.Decimal
