import JsonTree.Binary64.Rounding
import Mathlib.Algebra.Order.Field.Basic
import Mathlib.Data.Rat.Cast.Order
import Mathlib.Order.Monotone.Basic
import Mathlib.Tactic.FieldSimp
import Mathlib.Tactic.Linarith
import Mathlib.Tactic.Positivity
import Mathlib.Tactic.Ring

/-!
# Rounding a rational to a rank

The rank that `Binary64.nearestRank` computes is the only one in whose rounding interval the
rational lies. The interval of a rank ends half way to its two neighbours, and holds its ends when
the rank is even.

- `Binary64.units_strictMono`: the magnitudes ascend strictly, past the finite ones too.
- `Binary64.IsNearest`: a rational number of units lies in the rounding interval of a rank.
- `Binary64.IsNearest.unique`: no two rounding intervals meet; `Binary64.IsNearest.le_iff_of_odd`: the
  midpoint above an odd rank parts the ranks.
- `Binary64.nearestRank_isNearest`: the computed rank is the nearest one.
- `Finite64.value`, `Finite64.value_inj`: the rational that a finite value is, and numeric equality
  as equality of these.
-/

namespace JsonTree

/-! ## Halves to even -/

/-- `divHalfEven n d` lies at most half a step from `n / d`, and half a step only if it is even. -/
theorem divHalfEven_spec (n : Nat) {d : Nat} (hd : 0 < d) :
    (2 * n < d * (2 * divHalfEven n d + 1) ∨
      (2 * n = d * (2 * divHalfEven n d + 1) ∧ divHalfEven n d % 2 = 0)) ∧
    (d * (2 * divHalfEven n d) < 2 * n + d ∨
      (d * (2 * divHalfEven n d) = 2 * n + d ∧ divHalfEven n d % 2 = 0)) := by
  have hn : n = d * (n / d) + n % d := (Nat.div_add_mod n d).symm
  have hr : n % d < d := Nat.mod_lt n hd
  unfold divHalfEven
  generalize n / d = k at *
  generalize n % d = r at *
  subst hn
  have hmul : ∀ m : Nat, d * (2 * m) = 2 * (d * m) := fun m => by ring
  have hsucc : d * (2 * k + 1) = 2 * (d * k) + d := by ring
  have hsucc' : d * (2 * (k + 1)) = 2 * (d * k) + 2 * d := by ring
  have hsucc'' : d * (2 * (k + 1) + 1) = 2 * (d * k) + 3 * d := by ring
  split
  · rw [hsucc, hmul]
    omega
  · rw [hsucc', hsucc'']
    omega

namespace Binary64

/-! ## The ladder of magnitudes -/

/-- In the lowest block the magnitudes are the ranks themselves. -/
theorem units_of_lt {rank : Nat} (h : rank < 2 ^ 52) : units rank = rank := if_pos h

/-- In the other blocks a rank is a mantissa with its leading bit left out, and an exponent. -/
theorem units_of_le {rank : Nat} (h : 2 ^ 52 ≤ rank) :
    units rank = (2 ^ 52 + rank % 2 ^ 52) * 2 ^ (rank / 2 ^ 52 - 1) :=
  if_neg (Nat.not_lt.2 h)

/-- Inside a block, and at the first rank of the next one, the magnitude is the mantissa times the
spacing of the block. -/
theorem units_block {shift m : Nat} (h : shift = 0 ∨ 2 ^ 52 ≤ m) (hm : m ≤ 2 ^ 53) :
    units (shift * 2 ^ 52 + m) = m * 2 ^ shift := by
  by_cases hlow : shift * 2 ^ 52 + m < 2 ^ 52
  · have hshift : shift = 0 := by omega
    subst hshift
    rw [units_of_lt hlow]
    omega
  rw [units_of_le (Nat.not_lt.1 hlow)]
  by_cases hlast : m = 2 ^ 53
  · -- the carry: the first rank of the block above
    have hdiv : (shift * 2 ^ 52 + m) / 2 ^ 52 - 1 = shift + 1 := by omega
    have hmod : (shift * 2 ^ 52 + m) % 2 ^ 52 = 0 := by omega
    rw [hdiv, hmod, hlast, pow_succ]
    ring
  · have hdiv : (shift * 2 ^ 52 + m) / 2 ^ 52 - 1 = shift := by omega
    have hmod : 2 ^ 52 + (shift * 2 ^ 52 + m) % 2 ^ 52 = m := by omega
    rw [hdiv, hmod]

/-- Every rank has a mantissa and a block that does not end with it. -/
theorem exists_block (rank : Nat) :
    ∃ shift m, rank = shift * 2 ^ 52 + m ∧ (shift = 0 ∨ 2 ^ 52 ≤ m) ∧ m < 2 ^ 53 := by
  by_cases h : rank < 2 ^ 52
  · exact ⟨0, rank, by omega, Or.inl rfl, by omega⟩
  · exact ⟨rank / 2 ^ 52 - 1, 2 ^ 52 + rank % 2 ^ 52, by omega, Or.inr (by omega), by omega⟩

/-- From one rank to the next the magnitude grows, across the end of a block, too. -/
theorem units_lt_succ (rank : Nat) : units rank < units (rank + 1) := by
  obtain ⟨shift, m, rfl, hm, hlt⟩ := exists_block rank
  rw [units_block hm (Nat.le_of_lt hlt), Nat.add_assoc, units_block (by omega) hlt]
  exact Nat.mul_lt_mul_of_pos_right (Nat.lt_succ_self m) (Nat.two_pow_pos shift)

/-- The magnitudes ascend strictly. -/
theorem units_strictMono : StrictMono units := strictMono_nat_of_lt_succ units_lt_succ

@[simp] theorem units_zero : units 0 = 0 := rfl

theorem natPow_eq (b k : Nat) : Nat.pow b k = b ^ k := rfl

/-- The exponent is kept a variable, so that no power of that size is computed. -/
theorem unitsPerOne_eq {k : Nat} (hk : 1074 = k) : unitsPerOne = 2 ^ k := by
  unfold unitsPerOne
  rw [hk, natPow_eq]

/-- The magnitude that is past all finite ones is 2^1024. -/
theorem units_infinityRank : units infinityRank = 2 ^ 1024 * unitsPerOne := by
  have h : infinityRank = 2046 * 2 ^ 52 + 2 ^ 52 := by decide
  obtain ⟨k, hk⟩ : ∃ k, 1074 = k := ⟨1074, rfl⟩
  have hpow : 2 ^ 52 * 2 ^ 2046 = 2 ^ 1024 * 2 ^ k := by
    rw [← pow_add, ← pow_add]
    congr 1
    omega
  rw [h, units_block (Or.inr (Nat.le_refl _)) (by decide), hpow, unitsPerOne_eq hk]

/-- The unit is a part of one. -/
theorem unitsPerOne_pos : 0 < unitsPerOne := by
  rw [unitsPerOne_eq rfl]
  positivity

theorem cast_unitsPerOne_pos : (0 : ℚ) < unitsPerOne := by exact_mod_cast unitsPerOne_pos

/-! ## Rounding intervals -/

/-- The point half way between a rank and the next one, in units. -/
def midpoint (rank : Nat) : ℚ := ((units rank : ℚ) + units (rank + 1)) / 2

/-- `x` units lie in the rounding interval of `rank`: between the midpoints to its neighbours, ends
included if the rank is even. -/
structure IsNearest (x : ℚ) (rank : Nat) : Prop where
  upper : x < midpoint rank ∨ (x = midpoint rank ∧ rank % 2 = 0)
  lower : ∀ below, rank = below + 1 →
    midpoint below < x ∨ (midpoint below = x ∧ rank % 2 = 0)

/-- A magnitude lies below the midpoint above it. -/
theorem units_lt_midpoint (rank : Nat) : (units rank : ℚ) < midpoint rank := by
  have h : (units rank : ℚ) < units (rank + 1) := by exact_mod_cast units_lt_succ rank
  unfold midpoint
  linarith

/-- A midpoint lies below the magnitude above it. -/
theorem midpoint_lt_units_succ (rank : Nat) : midpoint rank < (units (rank + 1) : ℚ) := by
  have h : (units rank : ℚ) < units (rank + 1) := by exact_mod_cast units_lt_succ rank
  unfold midpoint
  linarith

/-- Inside a block the midpoints lie half a spacing above the magnitudes. -/
theorem midpoint_block {shift m : Nat} (h : shift = 0 ∨ 2 ^ 52 ≤ m) (hm : m < 2 ^ 53) :
    midpoint (shift * 2 ^ 52 + m) = ((2 * m + 1 : Nat) : ℚ) * 2 ^ shift / 2 := by
  have hself : units (shift * 2 ^ 52 + m) = m * 2 ^ shift := units_block h hm.le
  have hsucc : units (shift * 2 ^ 52 + m + 1) = (m + 1) * 2 ^ shift := by
    rw [Nat.add_assoc, units_block (by omega) hm]
  rw [midpoint, hself, hsucc]
  push_cast
  ring

/-- What lies below half a unit rounds to zero. -/
theorem midpoint_zero : midpoint 0 = 1 / 2 := by
  have hone : units 1 = 1 := units_of_lt (by norm_num)
  rw [midpoint, hone, units_zero]
  norm_num

/-- The midpoints ascend strictly, with the magnitudes between them. -/
theorem midpoint_strictMono : StrictMono midpoint :=
  strictMono_nat_of_lt_succ fun rank =>
    (midpoint_lt_units_succ rank).trans (units_lt_midpoint (rank + 1))

/-- A magnitude lies in its own rounding interval. -/
theorem isNearest_units (rank : Nat) : IsNearest (units rank) rank where
  upper := Or.inl (units_lt_midpoint rank)
  lower := by
    rintro below rfl
    exact Or.inl (midpoint_lt_units_succ below)

namespace IsNearest

variable {x y : ℚ} {r s : Nat}

/-- A rounding interval ends at the midpoint above its rank. -/
theorem le_midpoint (h : IsNearest x r) : x ≤ midpoint r := by
  rcases h.upper with h | ⟨h, -⟩
  · exact h.le
  · exact h.le

/-- A rounding interval starts at the midpoint below its rank. -/
theorem midpoint_le (h : IsNearest x (r + 1)) : midpoint r ≤ x := by
  rcases h.lower r rfl with h | ⟨h, -⟩
  · exact h.le
  · exact h.le

/-- Rounding is monotone. -/
theorem mono (hx : IsNearest x r) (hy : IsNearest y s) (hxy : x ≤ y) : r ≤ s := by
  by_contra hlt
  obtain ⟨below, rfl⟩ : ∃ below, r = below + 1 := ⟨r - 1, by omega⟩
  have hs : s ≤ below := by omega
  have hm : midpoint s ≤ midpoint below := midpoint_strictMono.monotone hs
  have hyx : y ≤ x := hy.le_midpoint.trans (hm.trans hx.midpoint_le)
  -- all four meet in one midpoint, which would be the end of two even neighbours
  have hxy' : x = y := le_antisymm hxy hyx
  have hmid : midpoint s = midpoint below :=
    le_antisymm hm (hx.midpoint_le.trans (hxy'.le.trans hy.le_midpoint))
  have hsb : s = below := midpoint_strictMono.injective hmid
  subst hsb
  have heq : x = midpoint s := le_antisymm (hxy'.le.trans hy.le_midpoint) hx.midpoint_le
  have hevenR : (s + 1) % 2 = 0 := by
    rcases hx.lower s rfl with h | ⟨-, h⟩
    · exact absurd heq h.ne'
    · exact h
  have hevenS : s % 2 = 0 := by
    rcases hy.upper with h | ⟨-, h⟩
    · exact absurd (hxy'.symm.trans heq) h.ne
    · exact h
  omega

/-- No two rounding intervals meet. -/
theorem unique (hr : IsNearest x r) (hs : IsNearest x s) : r = s :=
  Nat.le_antisymm (hr.mono hs le_rfl) (hs.mono hr le_rfl)

/-- At an odd rank both ends of the interval belong to the neighbours, so that the upper midpoint
parts the ranks. -/
theorem le_iff_of_odd (h : IsNearest x r) (hodd : s % 2 = 1) : r ≤ s ↔ x < midpoint s := by
  constructor
  · intro hle
    rcases Nat.lt_or_eq_of_le hle with hlt | rfl
    · exact h.le_midpoint.trans_lt (midpoint_strictMono hlt)
    · rcases h.upper with hx | ⟨-, heven⟩
      · exact hx
      · omega
  · intro hx
    by_contra hlt
    obtain ⟨below, rfl⟩ : ∃ below, r = below + 1 := ⟨r - 1, by omega⟩
    have hle : midpoint s ≤ midpoint below := midpoint_strictMono.monotone (by omega)
    exact absurd hx (not_lt.2 (hle.trans h.midpoint_le))

end IsNearest

/-! ## The computed rank -/

section

variable {n d shift : Nat}

/-- The block is high enough for the quotient. -/
theorem lt_block_end (hd : 0 < d) (hshift : shift = (n / d).log2 - 52) :
    n < d * 2 ^ shift * 2 ^ 53 := by
  have hlt : n / d < 2 ^ (shift + 53) :=
    Nat.lt_log2_self.trans_le (Nat.pow_le_pow_right (by decide) (by omega))
  rw [Nat.mul_assoc, ← pow_add, Nat.mul_comm]
  exact (Nat.div_lt_iff_lt_mul hd).1 hlt

/-- The block is no higher than the quotient needs, except for the lowest one. -/
theorem block_start_le (hshift : shift = (n / d).log2 - 52) (hpos : shift ≠ 0) :
    d * 2 ^ shift * 2 ^ 52 ≤ n := by
  have hlog : (n / d).log2 = shift + 52 := by omega
  have hne : n / d ≠ 0 := by
    intro hzero
    rw [hzero, Nat.log2_zero] at hlog
    omega
  have hle : 2 ^ (shift + 52) ≤ n / d := hlog ▸ Nat.log2_self_le hne
  rw [Nat.mul_assoc, ← pow_add]
  exact (Nat.mul_le_mul_left d hle).trans (Nat.mul_div_le n d)

/-- The mantissa that `nearestRank` rounds to fits the block it is put in. -/
theorem mantissa_bounds (hd : 0 < d) (hshift : shift = (n / d).log2 - 52) :
    (shift = 0 ∨ 2 ^ 52 ≤ divHalfEven n (d * 2 ^ shift)) ∧
      divHalfEven n (d * 2 ^ shift) ≤ 2 ^ 53 := by
  have hstep : 0 < d * 2 ^ shift := Nat.mul_pos hd (Nat.two_pow_pos shift)
  have hend := lt_block_end hd hshift
  have hstart := block_start_le hshift
  obtain ⟨hupper, hlower⟩ := divHalfEven_spec n hstep
  generalize divHalfEven n (d * 2 ^ shift) = m at *
  generalize d * 2 ^ shift = step at *
  constructor
  · by_cases h0 : shift = 0
    · exact Or.inl h0
    right
    have hle := hstart h0
    by_contra hlt
    have : step * (2 * m + 1) < step * (2 * 2 ^ 52) :=
      Nat.mul_lt_mul_of_pos_left (by omega) hstep
    omega
  · by_contra hgt
    have : step * (2 * (2 ^ 53 + 1)) ≤ step * (2 * m) := Nat.mul_le_mul_left step (by omega)
    omega

/-- Both sides of a comparison with half a spacing, over one denominator. -/
theorem div_eq_over (hd : 0 < d) : (n : ℚ) / d = ((2 * n : Nat) : ℚ) / (2 * d : Nat) := by
  have hdq : (d : ℚ) ≠ 0 := by exact_mod_cast hd.ne'
  push_cast
  field_simp

theorem half_eq_over (hd : 0 < d) (k : Nat) :
    (k : ℚ) * 2 ^ shift / 2 = ((d * 2 ^ shift * k : Nat) : ℚ) / (2 * d : Nat) := by
  have hdq : (d : ℚ) ≠ 0 := by exact_mod_cast hd.ne'
  push_cast
  field_simp

/-- Rounding `n / d` units inside a block gives the nearest rank. -/
theorem isNearest_block (hd : 0 < d) (hshift : shift = (n / d).log2 - 52) :
    IsNearest ((n : ℚ) / d) (shift * 2 ^ 52 + divHalfEven n (d * 2 ^ shift)) := by
  have hstep : 0 < d * 2 ^ shift := Nat.mul_pos hd (Nat.two_pow_pos shift)
  obtain ⟨hupper, hlower⟩ := divHalfEven_spec n hstep
  obtain ⟨hblock, hm⟩ := mantissa_bounds hd hshift
  generalize divHalfEven n (d * 2 ^ shift) = m at *
  have hdq : (0 : ℚ) < d := by exact_mod_cast hd
  have hover : (0 : ℚ) < (2 * d : Nat) := by exact_mod_cast Nat.mul_pos two_pos hd
  have hunits : (units (shift * 2 ^ 52 + m) : ℚ) = m * 2 ^ shift := by
    rw [units_block hblock hm]
    push_cast
    rfl
  have hparity : (shift * 2 ^ 52 + m) % 2 = m % 2 := by omega
  constructor
  · rw [hparity]
    by_cases hlast : m = 2 ^ 53
    · -- the block ends here, and all that is rounded in it lies below its end
      left
      have hend : (n : ℚ) < ((d * 2 ^ shift * 2 ^ 53 : Nat) : ℚ) := by
        exact_mod_cast lt_block_end hd hshift
      refine lt_trans ?_ (units_lt_midpoint _)
      rw [hunits, div_lt_iff₀ hdq, hlast]
      push_cast at hend ⊢
      linarith
    · rw [midpoint_block hblock (by omega), div_eq_over hd, half_eq_over hd,
        div_lt_div_iff_of_pos_right hover, div_left_inj' hover.ne', Nat.cast_lt, Nat.cast_inj]
      exact hupper
  · intro below hbelow
    rw [hparity]
    by_cases hfirst : shift ≠ 0 ∧ m = 2 ^ 52
    · -- the block starts here, and nothing that is rounded in it lies below its start
      left
      have hstart : ((d * 2 ^ shift * 2 ^ 52 : Nat) : ℚ) ≤ n := by
        exact_mod_cast block_start_le hshift hfirst.1
      refine lt_of_lt_of_le (midpoint_lt_units_succ below) ?_
      rw [← hbelow, hunits, le_div_iff₀ hdq, hfirst.2]
      push_cast at hstart ⊢
      linarith
    · obtain ⟨k, rfl⟩ : ∃ k, m = k + 1 := ⟨m - 1, by omega⟩
      have hk : below = shift * 2 ^ 52 + k := by omega
      have hhalf : d * 2 ^ shift * (2 * (k + 1)) = d * 2 ^ shift * (2 * k + 1) + d * 2 ^ shift := by
        ring
      rw [hk, midpoint_block (by omega) (by omega), div_eq_over hd, half_eq_over hd,
        div_lt_div_iff_of_pos_right hover, div_left_inj' hover.ne', Nat.cast_lt, Nat.cast_inj]
      rw [hhalf] at hlower
      generalize d * 2 ^ shift * (2 * k + 1) = half at *
      omega

end

/-- The computed rank is the nearest one. -/
theorem nearestRank_isNearest (n : Nat) {d : Nat} (hd : 0 < d) :
    IsNearest ((n : ℚ) / d * unitsPerOne) (nearestRank n d) := by
  have h := isNearest_block (n := n * unitsPerOne) hd rfl
  have hx : ((n * unitsPerOne : Nat) : ℚ) / d = (n : ℚ) / d * unitsPerOne := by
    push_cast
    ring
  rwa [hx] at h

end Binary64

/-! ## Values as rationals -/

namespace Binary64

/-- The rational that the magnitude of a rank is. -/
def magnitude (rank : Nat) : ℚ := (units rank : ℚ) / unitsPerOne

theorem magnitude_mul_unitsPerOne (rank : Nat) : magnitude rank * unitsPerOne = units rank :=
  div_mul_cancel₀ _ cast_unitsPerOne_pos.ne'

/-- The magnitudes ascend strictly, as rationals, too. -/
theorem magnitude_strictMono : StrictMono magnitude := fun _ _ h =>
  div_lt_div_of_pos_right (by exact_mod_cast units_strictMono h) cast_unitsPerOne_pos

theorem magnitude_zero : magnitude 0 = 0 := by
  rw [magnitude, units_zero, Nat.cast_zero, zero_div]

theorem magnitude_nonneg (rank : Nat) : 0 ≤ magnitude rank :=
  div_nonneg (Nat.cast_nonneg _) (Nat.cast_nonneg _)

theorem magnitude_pos {rank : Nat} (h : rank ≠ 0) : 0 < magnitude rank :=
  magnitude_zero ▸ magnitude_strictMono (Nat.pos_of_ne_zero h)

/-- Opposite signs meet in zero alone. -/
theorem magnitude_eq_neg_iff (r s : Nat) : magnitude r = -magnitude s ↔ r = s ∧ r = 0 := by
  constructor
  · intro h
    have hr := magnitude_nonneg r
    have hs := magnitude_nonneg s
    have hr0 : r = 0 := by
      by_contra hne
      linarith [magnitude_pos hne]
    have hs0 : s = 0 := by
      by_contra hne
      linarith [magnitude_pos hne]
    omega
  · rintro ⟨rfl, rfl⟩
    rw [magnitude_zero, neg_zero]

end Binary64

namespace Finite64

open Binary64

/-- The rational that a finite value is; both zeros are 0. -/
def value (x : Finite64) : ℚ :=
  if x.neg then -((units x.rank : ℚ) / unitsPerOne) else (units x.rank : ℚ) / unitsPerOne

/-- Numeric equality tells all values apart but the two zeros. -/
theorem numEq_iff (x y : Finite64) :
    x.numEq y = true ↔ x.rank = y.rank ∧ (x.neg = y.neg ∨ x.rank = 0) := by
  unfold numEq
  rw [Bool.and_eq_true, Bool.or_eq_true, beq_iff_eq, beq_iff_eq, beq_iff_eq]

/-- Values are numerically equal when they are the same rational. -/
theorem value_inj (x y : Finite64) : x.value = y.value ↔ x.numEq y = true := by
  obtain ⟨xneg, xrank, -⟩ := x
  obtain ⟨yneg, yrank, -⟩ := y
  rw [numEq_iff]
  -- values of different signs are equal only if both are zero
  cases xneg with
  | false =>
    cases yneg with
    | false =>
      show magnitude xrank = magnitude yrank ↔ _
      rw [magnitude_strictMono.injective.eq_iff]
      exact ⟨fun h => ⟨h, Or.inl rfl⟩, fun h => h.1⟩
    | true =>
      show magnitude xrank = -magnitude yrank ↔ _
      rw [magnitude_eq_neg_iff]
      exact and_congr_right fun _ => ⟨Or.inr, fun h => h.resolve_left Bool.false_ne_true⟩
  | true =>
    cases yneg with
    | false =>
      show -magnitude xrank = magnitude yrank ↔ _
      rw [eq_comm, magnitude_eq_neg_iff]
      constructor
      · rintro ⟨rfl, rfl⟩
        exact ⟨rfl, Or.inr rfl⟩
      · rintro ⟨rfl, hneg | hzero⟩
        · cases hneg
        · exact ⟨rfl, hzero⟩
    | true =>
      show -magnitude xrank = -magnitude yrank ↔ _
      rw [neg_inj, magnitude_strictMono.injective.eq_iff]
      exact ⟨fun h => ⟨h, Or.inl rfl⟩, fun h => h.1⟩

end Finite64

end JsonTree
