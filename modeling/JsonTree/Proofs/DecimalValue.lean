import JsonTree.Decimal.Shortest
import JsonTree.Proofs.Rounding
import Mathlib.Algebra.Order.Field.Power

/-!
# The value of a decimal, and its rounding

A decimal stands for a rational, and its nearest binary64 value is a function of that rational
alone: neither the spelling of the rational as coefficient and exponent nor the cases that are
answered without a power of ten matter.

- `Decimal.value`: the rational.
- `Decimal.toBinary64_of_isNearest`: the value whose rounding interval holds the rational.
- `Decimal.toBinary64_congr`: decimals of one value have one nearest binary64 value.
- `Binary64.overflowBound`, `Decimal.exists_finite_iff`: where the finite range ends.
- `Decimal.nearestRank_shortest`: the shortest decimal of a rank reads back as that rank.
-/

namespace JsonTree

open Binary64

/-- Past the finite ranks all ranks are one infinity. -/
theorem Binary64.ofRank_congr {neg : Bool} {r s : Nat}
    (h : min r infinityRank = min s infinityRank) : ofRank neg r = ofRank neg s := by
  unfold ofRank
  by_cases hr : r < infinityRank
  · have hrs : r = s := by omega
    subst hrs
    rfl
  · have hs : ¬ s < infinityRank := by omega
    rw [dif_neg hr, dif_neg hs]

namespace Binary64

/-- The bound of the finite range, half way between the largest finite value and 2^1024. -/
def overflowBound : ℚ := 2 ^ 1024 - 2 ^ 970

/-- The exponents are kept variables, so that no powers of that size are computed. -/
theorem overflowBound_eq {k : Nat} (hk : 970 = k) : overflowBound = (2 ^ 54 - 1) * 2 ^ k := by
  have hpow : (2 : ℚ) ^ 1024 = 2 ^ 54 * 2 ^ k := by
    rw [← pow_add]
    congr 1
    omega
  rw [overflowBound, hpow, hk]
  ring

/-- The last finite rank ends at the bound. -/
theorem midpoint_last : midpoint (infinityRank - 1) = overflowBound * unitsPerOne := by
  obtain ⟨j, hj⟩ : ∃ j, 970 = j := ⟨970, rfl⟩
  obtain ⟨k, hk⟩ : ∃ k, 1074 = k := ⟨1074, rfl⟩
  have hblock : infinityRank - 1 = 2045 * 2 ^ 52 + (2 ^ 53 - 1) := by decide
  have hpow : (2 : ℚ) ^ 2045 = 2 * 2 ^ j * 2 ^ k := by
    rw [← pow_succ', ← pow_add]
    congr 1
    omega
  have hone : (unitsPerOne : ℚ) = 2 ^ k := by
    rw [unitsPerOne_eq hk]
    push_cast
    rfl
  rw [hblock, midpoint_block (Or.inr (by decide)) (by decide), hpow, overflowBound_eq hj, hone]
  push_cast
  ring

theorem two_pow_lt_overflowBound : (2 : ℚ) ^ 128 < overflowBound := by
  obtain ⟨k, hk⟩ : ∃ k, 970 = k := ⟨970, rfl⟩
  have hle : (2 : ℚ) ^ 128 ≤ 2 ^ k := pow_le_pow_right₀ (by norm_num) (by omega)
  rw [overflowBound_eq hk]
  linarith [pow_pos (two_pos (α := ℚ)) k]

end Binary64

namespace Decimal

/-- The rational that a decimal stands for. -/
def value (d : Decimal) : ℚ := d.coeff * 10 ^ d.exp

theorem value_nonneg (d : Decimal) : 0 ≤ d.value :=
  mul_nonneg (Nat.cast_nonneg _) (zpow_nonneg (by norm_num) _)

theorem value_of_nonneg {d : Decimal} (h : 0 ≤ d.exp) :
    d.value = d.coeff * 10 ^ d.exp.toNat := by
  rw [value, ← zpow_natCast, Int.toNat_of_nonneg h]

theorem value_eq_natCast {d : Decimal} (h : 0 ≤ d.exp) :
    d.value = (d.coeff * 10 ^ d.exp.toNat : Nat) := by
  rw [value_of_nonneg h]
  push_cast
  rfl

theorem value_of_nonpos {d : Decimal} (h : d.exp ≤ 0) :
    d.value = d.coeff / 10 ^ (-d.exp).toNat := by
  have hexp : d.exp = -((-d.exp).toNat : ℤ) := by omega
  rw [value, div_eq_mul_inv, ← zpow_natCast, ← zpow_neg, ← hexp]

/-- Zeros behind the coefficient raise the exponent. -/
theorem value_mul_pow (c k : Nat) (e : Int) : value ⟨10 ^ k * c, e⟩ = value ⟨c, e + k⟩ := by
  unfold value
  push_cast
  rw [zpow_add₀ (by norm_num), zpow_natCast]
  ring

/-! ## The nearest rank -/

/-- The quotient that `nearestRank` rounds is the value. -/
theorem quotient_eq_value (d : Decimal) :
    ((d.coeff * 10 ^ d.exp.toNat : Nat) : ℚ) / (10 ^ (-d.exp).toNat : Nat) = d.value := by
  push_cast
  rcases le_total 0 d.exp with h | h
  · have hneg : (-d.exp).toNat = 0 := by omega
    rw [value_of_nonneg h, hneg, pow_zero, div_one]
  · have hpos : d.exp.toNat = 0 := by omega
    rw [value_of_nonpos h, hpos, pow_zero, mul_one]

theorem two_pow_le_ten_pow {a b : Nat} (k : Nat) (ha : a ≤ 93 * k + 1) (hb : 28 * k + 1 ≤ b) :
    2 ^ a ≤ 10 ^ b :=
  calc 2 ^ a ≤ 2 ^ (93 * k + 1) := Nat.pow_le_pow_right (by norm_num) ha
    _ = (2 ^ 93) ^ k * 2 := by rw [← pow_mul, ← pow_succ]
    _ ≤ (10 ^ 28) ^ k * 10 :=
      Nat.mul_le_mul (Nat.pow_le_pow_left (by norm_num) k) (by norm_num)
    _ = 10 ^ (28 * k + 1) := by rw [← pow_mul, ← pow_succ]
    _ ≤ 10 ^ b := Nat.pow_le_pow_right (by norm_num) hb

/-- From 10^309 on everything is past the finite magnitudes. -/
theorem units_infinityRank_le {d : Decimal} (hcoeff : d.coeff ≠ 0) (hexp : 308 < d.exp) :
    (units infinityRank : ℚ) ≤ d.value * unitsPerOne := by
  have hpow : 2 ^ 1024 ≤ 10 ^ d.exp.toNat := two_pow_le_ten_pow 11 (by norm_num) (by omega)
  have hle : 2 ^ 1024 ≤ d.coeff * 10 ^ d.exp.toNat :=
    hpow.trans (Nat.le_mul_of_pos_left _ (Nat.pos_of_ne_zero hcoeff))
  have hvalue : d.value = ((d.coeff * 10 ^ d.exp.toNat : Nat) : ℚ) := by
    rw [value_of_nonneg (by omega)]
    push_cast
    rfl
  rw [units_infinityRank, hvalue]
  exact_mod_cast Nat.mul_le_mul_right unitsPerOne hle

/-- Three binary places make up less than a decimal one. -/
theorem four_mul_lt_ten_pow {c b : Nat} (h : c.log2 + 1077 ≤ 3 * b) :
    4 * (c * unitsPerOne) < 10 ^ b := by
  obtain ⟨k, hk⟩ : ∃ k, 1074 = k := ⟨1074, rfl⟩
  have hlt : c * 2 ^ k < 2 ^ (c.log2 + 1) * 2 ^ k :=
    Nat.mul_lt_mul_of_pos_right Nat.lt_log2_self (Nat.two_pow_pos k)
  have hsplit : 4 * (2 ^ (c.log2 + 1) * 2 ^ k) = 2 ^ (c.log2 + 1077) := by
    rw [← pow_add, show 4 = 2 ^ 2 by norm_num, ← pow_add]
    congr 1
    omega
  rw [unitsPerOne_eq hk]
  calc 4 * (c * 2 ^ k) < 4 * (2 ^ (c.log2 + 1) * 2 ^ k) :=
        Nat.mul_lt_mul_of_pos_left hlt (by norm_num)
    _ = 2 ^ (c.log2 + 1077) := hsplit
    _ ≤ 2 ^ (3 * b) := Nat.pow_le_pow_right (by norm_num) h
    _ = (2 ^ 3) ^ b := pow_mul 2 3 b
    _ ≤ 10 ^ b := Nat.pow_le_pow_left (by norm_num) b

/-- Below 2^-1076 everything rounds to zero. -/
theorem isNearest_zero {d : Decimal} (h : (d.coeff.log2 + 1077 : Nat) ≤ 3 * -d.exp) :
    IsNearest (d.value * unitsPerOne) 0 where
  lower := by
    intro below hbelow
    omega
  upper := by
    left
    have hlt : 4 * (d.coeff * unitsPerOne) < 10 ^ (-d.exp).toNat :=
      four_mul_lt_ten_pow (by omega)
    have hq : (4 : ℚ) * (d.coeff * unitsPerOne) < 10 ^ (-d.exp).toNat := by exact_mod_cast hlt
    have hnonneg : (0 : ℚ) ≤ ((d.coeff * unitsPerOne : Nat) : ℚ) := Nat.cast_nonneg _
    push_cast at hnonneg
    rw [midpoint_zero, value_of_nonpos (by omega), div_mul_eq_mul_div,
      div_lt_div_iff₀ (by positivity) two_pos]
    linarith

/-- Up to ranks past the finite ones, which all stand for the infinity, the computed rank is the
nearest one. -/
theorem nearestRank_spec (d : Decimal) :
    ∃ rank, IsNearest (d.value * unitsPerOne) rank ∧
      min d.nearestRank infinityRank = min rank infinityRank := by
  have hrank := nearestRank_isNearest (d.coeff * 10 ^ d.exp.toNat)
    (Nat.pow_pos (n := (-d.exp).toNat) (show 0 < 10 by norm_num))
  rw [quotient_eq_value] at hrank
  refine ⟨_, hrank, ?_⟩
  unfold nearestRank
  generalize Binary64.nearestRank (d.coeff * 10 ^ d.exp.toNat) (10 ^ (-d.exp).toNat) = rank at *
  -- the shortcuts for zero, for huge and for tiny decimals give what the division would
  split
  · rename_i hcoeff
    have hzero : d.value * unitsPerOne = (units 0 : ℚ) := by
      rw [value, hcoeff, units_zero, Nat.cast_zero, zero_mul, zero_mul]
    rw [hzero] at hrank
    rw [hrank.unique (isNearest_units 0)]
  · rename_i hcoeff
    split
    · rename_i hexp
      have hle := (isNearest_units infinityRank).mono hrank (units_infinityRank_le hcoeff hexp)
      rw [Nat.min_self, Nat.min_eq_right hle]
    · split
      · rename_i hsmall
        rw [hrank.unique (isNearest_zero hsmall)]
      · rfl

variable {d e : Decimal} {rank : Nat}

/-- The computed rank is the one whose rounding interval the value lies in. -/
theorem nearestRank_of_isNearest (h : IsNearest (d.value * unitsPerOne) rank)
    (hlt : rank < infinityRank) : d.nearestRank = rank := by
  obtain ⟨r, hr, hmin⟩ := nearestRank_spec d
  have hrank : r = rank := hr.unique h
  omega

/-- The nearest binary64 value is the one whose rounding interval holds the decimal. -/
theorem toBinary64_of_isNearest (neg : Bool) (h : IsNearest (d.value * unitsPerOne) rank) :
    d.toBinary64 neg = ofRank neg rank := by
  obtain ⟨r, hr, hmin⟩ := nearestRank_spec d
  exact ofRank_congr (hr.unique h ▸ hmin)

/-- Decimals of one value have one nearest binary64 value. -/
theorem toBinary64_congr (neg : Bool) (h : d.value = e.value) :
    d.toBinary64 neg = e.toBinary64 neg := by
  obtain ⟨r, hr, hmin⟩ := nearestRank_spec e
  rw [toBinary64_of_isNearest neg (h ▸ hr)]
  exact ofRank_congr hmin.symm

/-! ## The finite range -/

/-- The nearest binary64 value is finite for the decimals below the bound. -/
theorem exists_finite_iff (neg : Bool) (d : Decimal) :
    (∃ x, d.toBinary64 neg = .finite x) ↔ d.value < overflowBound := by
  obtain ⟨rank, hrank, -⟩ := nearestRank_spec d
  have hone := cast_unitsPerOne_pos
  have hrange : rank < infinityRank ↔ d.value < overflowBound := by
    have hpred : rank < infinityRank ↔ rank ≤ infinityRank - 1 :=
      Nat.lt_iff_le_pred (by decide)
    rw [hpred, hrank.le_iff_of_odd (by decide), midpoint_last, mul_lt_mul_iff_left₀ hone]
  rw [toBinary64_of_isNearest neg hrank, ← hrange]
  unfold ofRank
  split
  · rename_i hlt
    exact iff_of_true ⟨_, rfl⟩ hlt
  · rename_i hlt
    exact iff_of_false nofun hlt

/-! ## The shortest decimal -/

/-- A magnitude reads back as its rank. -/
theorem nearestRank_of_value_eq (h : rank < infinityRank) (hd : d.value = magnitude rank) :
    d.nearestRank = rank := by
  refine nearestRank_of_isNearest ?_ h
  rw [hd, magnitude_mul_unitsPerOne]
  exact isNearest_units rank

/-- The finest grid of the search holds the magnitude itself. -/
theorem value_fineUnits (rank : Nat) : value ⟨fineUnits rank, -1074⟩ = magnitude rank := by
  -- the exponent is kept a variable, so that no power of that size is computed
  obtain ⟨k, hk⟩ : ∃ k, 1074 = k := ⟨1074, rfl⟩
  have hfine : fineUnits rank = units rank * 5 ^ k := by
    rw [fineUnits, hk, natPow_eq]
  have hexp : (-(-1074 : ℤ)).toNat = k := by omega
  have hten : (10 : ℚ) ^ k = 5 ^ k * 2 ^ k := by
    rw [← mul_pow]
    norm_num
  rw [value_of_nonpos (show (-1074 : ℤ) ≤ 0 by norm_num), hexp, hten, hfine, magnitude,
    unitsPerOne_eq hk]
  push_cast
  field_simp

theorem nearestRank_fineUnits (h : rank < infinityRank) :
    nearestRank ⟨fineUnits rank, -1074⟩ = rank :=
  nearestRank_of_value_eq h (value_fineUnits rank)

theorem nearestRank_of_onGrid {grid : Nat} (h : onGrid? rank grid = some d) :
    d.nearestRank = rank := by
  unfold onGrid? at h
  have hfind := List.find?_some h
  exact beq_iff_eq.1 hfind

theorem nearestRank_shortestFrom (h : rank < infinityRank) :
    ∀ grid, (shortestFrom rank grid).nearestRank = rank
  | 0 => nearestRank_fineUnits h
  | grid + 1 => by
    unfold shortestFrom
    cases hgrid : onGrid? rank (grid + 1) with
    | none => exact nearestRank_shortestFrom h grid
    | some d => exact nearestRank_of_onGrid hgrid

/-- The shortest decimal of a rank reads back as that rank. -/
theorem nearestRank_shortest (h : rank < infinityRank) : (shortest rank).nearestRank = rank := by
  unfold shortest
  split
  · rename_i hzero
    rw [hzero]
    rfl
  · exact nearestRank_shortestFrom h _

theorem shortest_zero : shortest 0 = ⟨0, 0⟩ := rfl

/-- Only zero has a coefficient of zero. -/
theorem coeff_ne_zero_of_nearestRank (h : rank ≠ 0) (hd : d.nearestRank = rank) :
    d.coeff ≠ 0 := by
  intro hcoeff
  rw [nearestRank, if_pos hcoeff] at hd
  exact h hd.symm

theorem shortest_coeff_ne_zero (h : rank < infinityRank) (hrank : rank ≠ 0) :
    (shortest rank).coeff ≠ 0 :=
  coeff_ne_zero_of_nearestRank hrank (nearestRank_shortest h)

/-- The shortest decimal reads back as the value that it was searched for. -/
theorem toBinary64_shortest (x : Finite64) :
    (shortest x.rank).toBinary64 x.neg = .finite x := by
  rw [toBinary64, nearestRank_shortest x.rank_lt, ofRank, dif_pos x.rank_lt]

end Decimal

end JsonTree
