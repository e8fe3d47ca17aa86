/-!
# Binary64 values

The values of IEEE 754 binary64, with the finite ones named by *rank*: the non-negative finite
values in ascending order carry the numbers 0, 1, 2, …, so the order of the ranks is the order of
the magnitudes, and neighbours in rank are neighbouring doubles.

- `Binary64.units`: the magnitude of a rank, counted in the smallest positive value, 2^-1074.
- `Finite64`, `NonFinite`, `Binary64`: a finite value is a sign and a rank; the others are the two
  infinities and a NaN without payload.
- `Binary64.ofRank`: the value of a signed rank, where every rank past the last finite one stands
  for the infinity.
- `Binary64.ofBits`, `Binary64.toBits`: the interchange encoding.
-/

namespace JsonTree

/-- How many finite magnitudes there are; as a rank, the first that is past all of them. -/
def Binary64.infinityRank : Nat := 2047 * Nat.pow 2 52

/-- How many units of 2^-1074 make one. -/
def Binary64.unitsPerOne : Nat := Nat.pow 2 1074

/-- The magnitude of a rank in units of 2^-1074. Below 2^53 the magnitudes are consecutive; from
then on each block of 2^52 ranks doubles the spacing. -/
def Binary64.units (rank : Nat) : Nat :=
  if rank < Nat.pow 2 52 then rank
  else (Nat.pow 2 52 + rank % Nat.pow 2 52) * Nat.pow 2 (rank / Nat.pow 2 52 - 1)

/-- A finite binary64 value. Both zeros have rank 0 and differ in sign. -/
structure Finite64 where
  neg : Bool
  rank : Nat
  rank_lt : rank < Binary64.infinityRank
deriving DecidableEq

/-- A binary64 value that is no number of the real line. -/
inductive NonFinite where
  | infinity (neg : Bool)
  | nan
deriving DecidableEq

/-- A binary64 value, all NaNs taken as one. -/
inductive Binary64 where
  | finite (x : Finite64)
  | nonFinite (w : NonFinite)
deriving DecidableEq

namespace Finite64

/-- The largest finite value of a sign. -/
def extreme (neg : Bool) : Finite64 := ⟨neg, Binary64.infinityRank - 1, by decide⟩

/-- Numeric equality: as values, except that the two zeros are equal. -/
def numEq (x y : Finite64) : Bool := x.rank == y.rank && (x.neg == y.neg || x.rank == 0)

end Finite64

namespace Binary64

/-- The infinity of a sign. -/
abbrev infinity (neg : Bool) : Binary64 := .nonFinite (.infinity neg)

/-- The value that is not a number. -/
abbrev nan : Binary64 := .nonFinite .nan

/-- The value of a signed rank; ranks past the finite ones give the infinity. -/
def ofRank (neg : Bool) (rank : Nat) : Binary64 :=
  if h : rank < infinityRank then .finite ⟨neg, rank, h⟩ else infinity neg

/-- The value as a finite one, if it is. -/
def finite? : Binary64 → Option Finite64
  | .finite x => some x
  | .nonFinite _ => none

/-- Decodes the interchange format: a sign bit above the rank of the magnitude; above the
infinity's rank lie the NaNs. -/
def ofBits (bits : UInt64) : Binary64 :=
  let rank := bits.toNat % Nat.pow 2 63
  if infinityRank < rank then nan else ofRank (Nat.pow 2 63 ≤ bits.toNat) rank

/-- Encodes in the interchange format; a NaN gets the quiet pattern of positive sign. -/
def toBits : Binary64 → UInt64
  | .finite x => (x.neg.toNat * Nat.pow 2 63 + x.rank).toUInt64
  | .nonFinite (.infinity neg) => (neg.toNat * Nat.pow 2 63 + infinityRank).toUInt64
  | .nonFinite .nan => (infinityRank + Nat.pow 2 51).toUInt64

end Binary64

end JsonTree
