import JsonTree.Proofs.ShortestDecimal

/-!
# The fewest digits

No decimal that reads back as a rank has fewer digits than the shortest one. A decimal with fewer
digits has its leading digit further right, since the shortest one lies on the coarsest grid. Then the
power of ten of the leading digit lies between the two and reads back as well; so it is a point of
that coarsest grid, and the shortest decimal has one digit.

- `Decimal.leadingExp_spec`: the powers of ten between which a decimal lies.
- `Decimal.length_digits_shortest_le`: no decimal that reads back has fewer digits.
- `Decimal.abs_shortest_sub_le`: none with as many digits is nearer.
- `Decimal.le_leadingExp_shortest_iff`: where the leading digit stands, by comparison with the rank
  nearest to a power of ten.
-/

namespace JsonTree

open Binary64

namespace Decimal

variable {d e : Decimal} {rank : Nat}

/-! ## The leading digit -/

theorem length_digits_pos (d : Decimal) : 0 < d.digits.length := Nat.length_toDigits_pos

theorem coeff_lt_iff {k : Nat} (h : 0 < k) : d.coeff < 10 ^ k ↔ d.digits.length ≤ k :=
  (Nat.length_toDigits_le_iff (by decide) h).symm

theorem exp_le_leadingExp (d : Decimal) : d.exp ≤ d.leadingExp := by
  have := d.length_digits_pos
  unfold leadingExp
  omega

/-- A decimal lies between the power of ten of its leading digit and the next one. -/
theorem leadingExp_spec (h : d.coeff ≠ 0) :
    (10 : ℚ) ^ d.leadingExp ≤ d.value ∧ d.value < 10 ^ (d.leadingExp + 1) := by
  obtain ⟨k, hk⟩ : ∃ k, d.digits.length = k + 1 := ⟨_, (Nat.succ_pred d.length_digits_pos.ne').symm⟩
  have hstep : (0 : ℚ) < 10 ^ d.exp := zpow_pos (by norm_num) _
  have hlead : d.leadingExp = k + d.exp := by
    unfold leadingExp
    omega
  have hlow : 10 ^ k ≤ d.coeff := by
    rcases Nat.eq_zero_or_pos k with rfl | hpos
    · exact Nat.pos_of_ne_zero h
    · by_contra hlt
      have := (coeff_lt_iff hpos).1 (not_le.1 hlt)
      omega
  have hhigh : d.coeff < 10 ^ (k + 1) := (coeff_lt_iff (Nat.succ_pos k)).2 hk.le
  rw [hlead, add_right_comm, zpow_add₀ (by norm_num), zpow_add₀ (by norm_num), zpow_natCast, value,
    mul_le_mul_iff_left₀ hstep, mul_lt_mul_iff_left₀ hstep, ← Nat.cast_succ, zpow_natCast]
  exact ⟨by exact_mod_cast hlow, by exact_mod_cast hhigh⟩

theorem leadingExp_eq_exp_iff : d.leadingExp = d.exp ↔ d.digits.length = 1 := by
  unfold leadingExp
  omega

theorem value_ten_pow (k : Int) : value ⟨1, k⟩ = 10 ^ k := by
  rw [value, Nat.cast_one, one_mul]

/-! ## Fewer digits -/

/-- Rounding to a rank is monotone. -/
theorem nearestRank_le_of_le (h : rank < infinityRank) (he : e.nearestRank = rank)
    (hle : d.value ≤ e.value) : d.nearestRank ≤ rank := by
  obtain ⟨r, hr, hmin⟩ := nearestRank_spec d
  have hmono := hr.mono ((nearestRank_eq_iff h).1 he)
    (mul_le_mul_of_nonneg_right hle (Nat.cast_nonneg _))
  omega

theorem le_nearestRank_of_le (h : rank < infinityRank) (he : e.nearestRank = rank)
    (hle : e.value ≤ d.value) : rank ≤ d.nearestRank := by
  obtain ⟨r, hr, hmin⟩ := nearestRank_spec d
  have hmono := ((nearestRank_eq_iff h).1 he).mono hr
    (mul_le_mul_of_nonneg_right hle (Nat.cast_nonneg _))
  omega

/-- A decimal that reads back and has its leading digit further right leaves the power of ten of the
leading digit between itself and the shortest decimal, so that the shortest has one digit. -/
theorem leadingExp_shortest_eq_exp (h : rank < infinityRank) (hrank : rank ≠ 0)
    (he : e.nearestRank = rank) (hlead : e.leadingExp < (shortest rank).leadingExp) :
    (shortest rank).leadingExp = (shortest rank).exp ∧
      nearestRank ⟨1, (shortest rank).exp⟩ = rank := by
  have hlow := (leadingExp_spec (shortest_coeff_ne_zero h hrank)).1
  have hhigh := (leadingExp_spec (coeff_ne_zero_of_nearestRank hrank he)).2
  have hpow : (10 : ℚ) ^ (e.leadingExp + 1) ≤ 10 ^ (shortest rank).leadingExp :=
    zpow_le_zpow_right₀ (by norm_num) hlead
  have hreads : nearestRank ⟨1, (shortest rank).leadingExp⟩ = rank := by
    refine nearestRank_of_between h he (nearestRank_shortest h) ?_ ?_
    · rw [value_ten_pow]
      exact (hhigh.trans_le hpow).le
    · rwa [value_ten_pow]
  have heq := le_antisymm (exp_le_shortest h hrank hreads) (shortest rank).exp_le_leadingExp
  exact ⟨heq, heq ▸ hreads⟩

/-- No decimal that reads back has fewer digits than the shortest one. -/
theorem length_digits_shortest_le (h : rank < infinityRank) (hrank : rank ≠ 0)
    (he : e.nearestRank = rank) : (shortest rank).digits.length ≤ e.digits.length := by
  by_contra hlt
  have hexp := exp_le_shortest h hrank he
  have hlead : e.leadingExp < (shortest rank).leadingExp := by
    unfold leadingExp
    omega
  have hone := leadingExp_eq_exp_iff.1 (leadingExp_shortest_eq_exp h hrank he hlead).1
  have := e.length_digits_pos
  omega

/-- The shortest decimal does not end in a zero. -/
theorem coeff_shortest_mod_ten (h : rank < infinityRank) (hrank : rank ≠ 0) :
    (shortest rank).coeff % 10 ≠ 0 := by
  intro hmod
  have hcoarser : value ⟨(shortest rank).coeff / 10, (shortest rank).exp + 1⟩
      = (shortest rank).value := by
    have hcoeff : (10 : Nat) ^ 1 * ((shortest rank).coeff / 10) = (shortest rank).coeff := by omega
    have hshift := value_mul_pow ((shortest rank).coeff / 10) 1 (shortest rank).exp
    rw [hcoeff] at hshift
    exact hshift.symm
  have hreads : nearestRank ⟨(shortest rank).coeff / 10, (shortest rank).exp + 1⟩ = rank :=
    nearestRank_of_between h (nearestRank_shortest h) (nearestRank_shortest h) hcoarser.ge
      hcoarser.le
  have hexp := exp_le_shortest h hrank hreads
  exact absurd hexp (by show ¬ (shortest rank).exp + 1 ≤ (shortest rank).exp; omega)

/-! ## As many digits -/

/-- From the tenth magnitude on, the next one is at most a tenth further. -/
theorem units_succ_le_of_ten_le (h : 10 ≤ rank) : 10 * units (rank + 1) ≤ 11 * units rank := by
  obtain ⟨shift, m, rfl, hm, hlt⟩ := exists_block rank
  have hten : 10 ≤ m := by
    rcases hm with rfl | hm
    · omega
    · exact le_trans (by decide) hm
  rw [units_block hm hlt.le, Nat.add_assoc, units_block (by omega) hlt, ← Nat.mul_assoc,
    ← Nat.mul_assoc]
  exact Nat.mul_le_mul_right _ (by omega)

/-- 10^-323 is two units and a little more. -/
theorem ten_zpow_units : (2 : ℚ) < 10 ^ (-323 : ℤ) * unitsPerOne ∧
    (10 : ℚ) ^ (-323 : ℤ) * unitsPerOne < 41 / 20 := by
  obtain ⟨j, hj⟩ : ∃ j, 323 = j := ⟨323, rfl⟩
  have hlow : 2 * 10 ^ j < unitsPerOne := by
    rw [← hj]
    decide +kernel
  have hhigh : 20 * unitsPerOne < 41 * 10 ^ j := by
    rw [← hj]
    decide +kernel
  have hlow' : (2 : ℚ) * 10 ^ j < unitsPerOne := by exact_mod_cast hlow
  have hhigh' : (20 : ℚ) * unitsPerOne < 41 * 10 ^ j := by exact_mod_cast hhigh
  have hexp : (-323 : ℤ) = -(j : ℤ) := by omega
  have hpos : (0 : ℚ) < 10 ^ j := by positivity
  rw [hexp, zpow_neg, zpow_natCast, inv_mul_eq_div, lt_div_iff₀ hpos, div_lt_iff₀ hpos]
  exact ⟨hlow', by linarith⟩

/-- Of the powers of ten only 10^-323 lies less than half a unit above one of the first magnitudes,
the second one. -/
theorem ten_zpow_units_le {k : Int} (h : rank ≤ 9) (hrank : rank ≠ 0)
    (hk : (10 : ℚ) ^ k * unitsPerOne ≤ rank + 1 / 2) :
    19 * ((10 : ℚ) ^ k * unitsPerOne) ≤ 20 * rank := by
  obtain ⟨hlow, hhigh⟩ := ten_zpow_units
  have hpos : (1 : ℚ) ≤ rank := by exact_mod_cast Nat.pos_of_ne_zero hrank
  have hnine : (rank : ℚ) ≤ 9 := by exact_mod_cast h
  have hsplit : (10 : ℚ) ^ k * unitsPerOne = 10 ^ (k + 323) * (10 ^ (-323 : ℤ) * unitsPerOne) := by
    rw [← mul_assoc, ← zpow_add₀ (by norm_num)]
    congr 2
    omega
  rw [hsplit] at hk ⊢
  generalize (10 : ℚ) ^ (-323 : ℤ) * unitsPerOne = t at *
  -- 10^-324 is too small to matter, and 10^-322 lies above all these magnitudes
  rcases lt_trichotomy (k + 323) 0 with hneg | hzero | hgt
  · have hle : (10 : ℚ) ^ (k + 323) ≤ 10 ^ (-1 : ℤ) := zpow_le_zpow_right₀ (by norm_num) (by omega)
    rw [zpow_neg_one] at hle
    nlinarith
  · rw [hzero, zpow_zero, one_mul] at hk ⊢
    have htwo : 2 ≤ rank := by
      by_contra hlt
      have : (rank : ℚ) ≤ 1 := by exact_mod_cast (show rank ≤ 1 by omega)
      linarith
    have htwo' : (2 : ℚ) ≤ rank := by exact_mod_cast htwo
    linarith
  · have hle : (10 : ℚ) ^ (1 : ℤ) ≤ 10 ^ (k + 323) := zpow_le_zpow_right₀ (by norm_num) (by omega)
    rw [zpow_one] at hle
    nlinarith

/-- A power of ten that reads back exceeds the magnitude by a nineteenth of it at most. -/
theorem ten_zpow_le {k : Int} (h : rank < infinityRank) (hrank : rank ≠ 0)
    (hk : nearestRank ⟨1, k⟩ = rank) : 19 * (10 : ℚ) ^ k ≤ 20 * magnitude rank := by
  have hone := cast_unitsPerOne_pos
  have hnearest := (nearestRank_eq_iff h).1 hk
  rw [value_ten_pow] at hnearest
  have hmid : midpoint rank = ((units rank : ℚ) + units (rank + 1)) / 2 := rfl
  have hupper := hnearest.le_midpoint
  suffices hunits : 19 * (10 ^ k * unitsPerOne) ≤ 20 * (units rank : ℚ) by
    rw [← magnitude_mul_unitsPerOne, ← mul_assoc, ← mul_assoc] at hunits
    exact (mul_le_mul_iff_left₀ hone).1 hunits
  by_cases hten : 10 ≤ rank
  · have hsucc : (10 * units (rank + 1) : ℚ) ≤ 11 * units rank := by
      exact_mod_cast units_succ_le_of_ten_le hten
    linarith
  · rw [hmid, units_of_lt (by omega), units_of_lt (by omega), Nat.cast_succ] at hupper
    rw [units_of_lt (by omega)]
    exact ten_zpow_units_le (by omega) hrank (by linarith)

/-- One digit on a finer grid makes at most nine tenths of a step. -/
theorem value_le_of_digits {k : Int} (hlen : d.digits.length ≤ 1) (hexp : d.exp < k) :
    d.value ≤ 9 / 10 * 10 ^ k := by
  have hcoeff : (d.coeff : ℚ) ≤ 9 := by
    exact_mod_cast Nat.le_of_lt_succ ((coeff_lt_iff Nat.one_pos).2 hlen)
  have hstep : (10 : ℚ) ^ d.exp ≤ 10 ^ (k - 1) := zpow_le_zpow_right₀ (by norm_num) (by omega)
  calc d.value ≤ 9 * 10 ^ (k - 1) :=
        mul_le_mul hcoeff hstep (zpow_nonneg (by norm_num) _) (by norm_num)
    _ = 9 / 10 * 10 ^ k := by
        rw [zpow_sub_one₀ (by norm_num)]
        ring

/-- No decimal that reads back with as many digits as the shortest one is nearer. -/
theorem abs_shortest_sub_le (h : rank < infinityRank) (hrank : rank ≠ 0)
    (he : e.nearestRank = rank) (hlen : e.digits.length = (shortest rank).digits.length) :
    |(shortest rank).value - magnitude rank| ≤ |e.value - magnitude rank| := by
  rcases lt_or_eq_of_le (exp_le_shortest h hrank he) with hlt | heq
  · have hlead : e.leadingExp < (shortest rank).leadingExp := by
      unfold leadingExp
      omega
    obtain ⟨hexp, hreads⟩ := leadingExp_shortest_eq_exp h hrank he hlead
    refine (closest_shortest h hrank hreads rfl).trans ?_
    have hone : e.digits.length ≤ 1 := (hlen.trans (leadingExp_eq_exp_iff.1 hexp)).le
    have hle : e.value ≤ 9 / 10 * value ⟨1, (shortest rank).exp⟩ := by
      rw [value_ten_pow]
      exact value_le_of_digits hone hlt
    have hnineteen := ten_zpow_le h hrank hreads
    rw [← value_ten_pow] at hnineteen
    have hpos : 0 ≤ value ⟨1, (shortest rank).exp⟩ := value_nonneg _
    generalize value ⟨1, (shortest rank).exp⟩ = power at *
    -- the power of ten is at most twice as far above the magnitude as the decimal is below it
    rw [abs_of_nonpos (show e.value - magnitude rank ≤ 0 by linarith), abs_le]
    exact ⟨by linarith, by linarith⟩
  · exact closest_shortest h hrank he heq

/-! ## The place of the leading digit -/

/-- The leading digit stands at a power of ten or further left exactly if the power of ten rounds to
the rank or to a lower one. -/
theorem le_leadingExp_shortest_iff (h : rank < infinityRank) (hrank : rank ≠ 0) (k : Int) :
    k ≤ (shortest rank).leadingExp ↔ nearestRank ⟨1, k⟩ ≤ rank := by
  obtain ⟨hlow, hhigh⟩ := leadingExp_spec (shortest_coeff_ne_zero h hrank)
  constructor
  · intro hk
    refine nearestRank_le_of_le h (nearestRank_shortest h) ?_
    rw [value_ten_pow]
    exact (zpow_le_zpow_right₀ (by norm_num) hk).trans hlow
  · intro hk
    by_contra hlt
    have hle : (shortest rank).value ≤ value ⟨1, k⟩ := by
      rw [value_ten_pow]
      exact (hhigh.trans_le (zpow_le_zpow_right₀ (by norm_num) (by omega))).le
    have hreads : nearestRank ⟨1, k⟩ = rank :=
      le_antisymm hk (le_nearestRank_of_le h (nearestRank_shortest h) hle)
    have hexp : k ≤ (shortest rank).exp := exp_le_shortest h hrank hreads
    exact hlt (hexp.trans (shortest rank).exp_le_leadingExp)

end Decimal

end JsonTree
