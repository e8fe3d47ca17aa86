import JsonTree.Proofs.DecimalValue

/-!
# Nearest values

Rounding said without ranks: of all finite binary64 values none lies nearer to the rational than the
one that is computed, and of two that lie at the same distance the even one is taken. Magnitudes from
half way between the largest finite value and 2^1024 on give an infinity, and magnitudes up to half
the smallest positive value give a zero.

- `withSign`: a magnitude with a sign.
- `Finite64.IsClosest`: no finite value is nearer, and a tie goes to the even one;
  `Finite64.IsClosest.value_unique`: that leaves one value.
- `Binary64.Rounds`: what a rational with a sign rounds to.
- `Binary64.Le`: the order of the values that are numbers.
- `Decimal.rounds_toBinary64`, `Decimal.toBinary64_mono`: the value of a decimal is the nearest one,
  and it is monotone in the decimal.
-/

namespace JsonTree

open Binary64

/-! ## Signs -/

/-- A magnitude with a sign. -/
def withSign (neg : Bool) (q : ℚ) : ℚ := if neg then -q else q

@[simp] theorem withSign_false (q : ℚ) : withSign false q = q := rfl

@[simp] theorem withSign_true (q : ℚ) : withSign true q = -q := rfl

@[simp] theorem withSign_zero (neg : Bool) : withSign neg 0 = 0 := by
  cases neg with
  | false => rfl
  | true => exact neg_zero

/-- A sign does not change the magnitude. -/
theorem abs_withSign (neg : Bool) {q : ℚ} (h : 0 ≤ q) : |withSign neg q| = q := by
  cases neg with
  | false => exact abs_of_nonneg h
  | true => exact (abs_neg q).trans (abs_of_nonneg h)

/-- Two values of one sign lie as far apart as their magnitudes. -/
theorem abs_withSign_sub (neg : Bool) (a b : ℚ) :
    |withSign neg a - withSign neg b| = |a - b| := by
  cases neg with
  | false => rfl
  | true => rw [withSign_true, withSign_true, neg_sub_neg, abs_sub_comm]

/-- Magnitudes of opposite signs lie as far apart as their sum. -/
theorem abs_withSign_sub_of_ne {a b : ℚ} (ha : 0 ≤ a) (hb : 0 ≤ b) {neg other : Bool}
    (h : other ≠ neg) : |withSign neg a - withSign other b| = a + b := by
  cases neg with
  | false =>
    rw [Bool.eq_true_of_not_eq_false h, withSign_false, withSign_true, sub_neg_eq_add]
    exact abs_of_nonneg (add_nonneg ha hb)
  | true =>
    rw [Bool.eq_false_of_not_eq_true h, withSign_false, withSign_true, ← neg_add', abs_neg]
    exact abs_of_nonneg (add_nonneg ha hb)

namespace Binary64

/-! ## Distances in units -/

namespace IsNearest

variable {x : ℚ} {r s : Nat}

/-- No greater magnitude is nearer, and one that is as near leaves the rank even. -/
theorem sub_le_of_lt (h : IsNearest x r) (hrs : r < s) :
    x - units r ≤ units s - x ∧ (x - units r = units s - x → r % 2 = 0) := by
  have hsucc : (units (r + 1) : ℚ) ≤ units s := by
    exact_mod_cast units_strictMono.monotone hrs
  have hmid : midpoint r = ((units r : ℚ) + units (r + 1)) / 2 := rfl
  refine ⟨by linarith [h.le_midpoint], fun heq => ?_⟩
  rcases h.upper with hlt | ⟨-, heven⟩
  · exact absurd heq (by linarith)
  · exact heven

/-- No smaller magnitude is nearer, and one that is as near leaves the rank even. -/
theorem sub_le_of_gt (h : IsNearest x r) (hsr : s < r) :
    units r - x ≤ x - units s ∧ (units r - x = x - units s → r % 2 = 0) := by
  obtain ⟨below, rfl⟩ : ∃ below, r = below + 1 := ⟨r - 1, by omega⟩
  have hle : (units s : ℚ) ≤ units below := by
    exact_mod_cast units_strictMono.monotone (Nat.le_of_lt_succ hsr)
  have hmid : midpoint below = ((units below : ℚ) + units (below + 1)) / 2 := rfl
  refine ⟨by linarith [h.midpoint_le], fun heq => ?_⟩
  rcases h.lower below rfl with hlt | ⟨-, heven⟩
  · exact absurd heq (by linarith)
  · exact heven

/-- The magnitude of another rank is at least as far away, and as far only if the rank is even. -/
theorem abs_sub_le (h : IsNearest x r) (hrs : s ≠ r) :
    |x - units r| ≤ |x - units s| ∧ (|x - units r| = |x - units s| → r % 2 = 0) := by
  rcases lt_or_gt_of_ne hrs with hlt | hgt
  · obtain ⟨hle, heven⟩ := h.sub_le_of_gt hlt
    have hsr : (units s : ℚ) < units r := by exact_mod_cast units_strictMono hlt
    have habs : |x - units s| = x - units s := abs_of_nonneg (by linarith)
    rw [habs]
    refine ⟨abs_le.2 ⟨by linarith, by linarith⟩, fun heq => ?_⟩
    rcases abs_cases (x - units r) with ⟨hx, -⟩ | ⟨hx, -⟩
    · exact absurd heq (by linarith)
    · exact heven (by linarith)
  · obtain ⟨hle, heven⟩ := h.sub_le_of_lt hgt
    have hrs' : (units r : ℚ) < units s := by exact_mod_cast units_strictMono hgt
    have habs : |x - units s| = units s - x := by
      rw [abs_sub_comm]
      exact abs_of_nonneg (by linarith)
    rw [habs]
    refine ⟨abs_le.2 ⟨by linarith, by linarith⟩, fun heq => ?_⟩
    rcases abs_cases (x - units r) with ⟨hx, -⟩ | ⟨hx, -⟩
    · exact heven (by linarith)
    · exact absurd heq (by linarith)

/-- Up to half a unit everything rounds to zero, and nothing else does. -/
theorem eq_zero_iff (h : IsNearest x r) : r = 0 ↔ x ≤ 1 / 2 := by
  constructor
  · rintro rfl
    exact midpoint_zero ▸ h.le_midpoint
  · intro hx
    have hzero : IsNearest x 0 := by
      constructor
      · rw [midpoint_zero]
        exact (lt_or_eq_of_le hx).imp_right fun heq => ⟨heq, rfl⟩
      · intro below hbelow
        omega
    exact h.unique hzero

/-- Below 2^52 units, where the magnitudes are consecutive, nothing is rounded by more than half a
unit. -/
theorem abs_sub_le_half (h : IsNearest x r) (hx : x ≤ 2 ^ 52) (hx0 : 0 ≤ x) :
    |x - units r| ≤ 1 / 2 := by
  have hunits : ∀ {s : Nat}, s ≤ 2 ^ 52 → (units s : ℚ) = s := by
    intro s hs
    have hblock : units (0 * 2 ^ 52 + s) = s * 2 ^ 0 := units_block (Or.inl rfl) (by omega)
    rw [Nat.zero_mul, Nat.zero_add, pow_zero, Nat.mul_one] at hblock
    rw [hblock]
  -- rounding is monotone, and 2^52 units round to themselves
  have hr : r ≤ 2 ^ 52 := by
    refine h.mono (isNearest_units (2 ^ 52)) ?_
    rw [hunits le_rfl]
    exact_mod_cast hx
  rw [hunits hr, abs_le]
  constructor
  · rcases Nat.eq_zero_or_pos r with rfl | hpos
    · rw [Nat.cast_zero]
      linarith
    · obtain ⟨below, rfl⟩ : ∃ below, r = below + 1 := ⟨r - 1, by omega⟩
      have hmid := h.midpoint_le
      rw [midpoint, hunits (by omega), hunits hr] at hmid
      push_cast at hmid ⊢
      linarith
  · rcases Nat.lt_or_eq_of_le hr with hlt | rfl
    · have hmid := h.le_midpoint
      rw [midpoint, hunits hr, hunits hlt] at hmid
      push_cast at hmid
      linarith
    · push_cast
      linarith

end IsNearest

end Binary64

/-! ## The closest value -/

namespace Finite64

theorem value_eq (x : Finite64) : x.value = withSign x.neg (magnitude x.rank) := rfl

/-- The rank gives the magnitude of a value. -/
theorem abs_value (x : Finite64) : |x.value| = magnitude x.rank :=
  abs_withSign x.neg (magnitude_nonneg x.rank)

/-- The values of rank zero are the two zeros. -/
theorem value_eq_zero_iff {x : Finite64} : x.value = 0 ↔ x.rank = 0 := by
  rw [← abs_eq_zero, abs_value, ← magnitude_zero, magnitude_strictMono.injective.eq_iff]

theorem rank_ne_zero {x : Finite64} (h : x.value ≠ 0) : x.rank ≠ 0 := mt value_eq_zero_iff.2 h

/-- No finite value is nearer to `q`, and if another one is as near, the rank is even. -/
structure IsClosest (x : Finite64) (q : ℚ) : Prop where
  le : ∀ y : Finite64, |q - x.value| ≤ |q - y.value|
  even : ∀ y : Finite64, y.value ≠ x.value → |q - x.value| = |q - y.value| → x.rank % 2 = 0

/-- A distance in units. -/
theorem abs_sub_eq (q : ℚ) (r : Nat) :
    |q - magnitude r| = |q * unitsPerOne - units r| / unitsPerOne := by
  have hone := cast_unitsPerOne_pos
  rw [eq_div_iff hone.ne', ← abs_of_pos hone, ← abs_mul, abs_of_pos hone, sub_mul,
    magnitude_mul_unitsPerOne]

/-- The value of the nearest rank, with the sign of the rational, is the closest one. -/
theorem isClosest_of_isNearest {x : Finite64} {q : ℚ} (hq : 0 ≤ q)
    (h : IsNearest (q * unitsPerOne) x.rank) : x.IsClosest (withSign x.neg q) := by
  have hone := cast_unitsPerOne_pos
  -- a value of the other sign is farther away than the one of the same magnitude and sign
  have hflip : ∀ y : Finite64, |q - magnitude y.rank|
      ≤ |withSign x.neg q - y.value| := by
    intro y
    by_cases hneg : y.neg = x.neg
    · rw [value_eq, hneg, abs_withSign_sub]
    · have hy := magnitude_nonneg y.rank
      rw [value_eq, abs_withSign_sub_of_ne hq hy hneg]
      exact abs_le.2 ⟨by linarith, by linarith⟩
  have hself : |withSign x.neg q - x.value| = |q - magnitude x.rank| :=
    abs_withSign_sub x.neg _ _
  have hdist : ∀ {r : Nat}, r ≠ x.rank →
      |q - magnitude x.rank| ≤ |q - magnitude r| ∧
        (|q - magnitude x.rank| = |q - magnitude r| →
          x.rank % 2 = 0) := by
    intro r hr
    rw [abs_sub_eq, abs_sub_eq, div_le_div_iff_of_pos_right hone, div_left_inj' hone.ne']
    exact h.abs_sub_le hr
  constructor
  · intro y
    rw [hself]
    refine le_trans ?_ (hflip y)
    by_cases hr : y.rank = x.rank
    · rw [hr]
    · exact (hdist hr).1
  · intro y hne heq
    rw [hself] at heq
    by_cases hr : y.rank = x.rank
    · -- the two differ in sign only, so that `q` is zero
      have hneg : y.neg ≠ x.neg := by
        intro hneg
        exact hne (by rw [value_eq, value_eq, hneg, hr])
      have hx := magnitude_nonneg x.rank
      rw [value_eq, abs_withSign_sub_of_ne hq (magnitude_nonneg y.rank) hneg, hr] at heq
      have hle : q ≤ 0 ∨ magnitude x.rank ≤ 0 := by
        rcases abs_cases (q - magnitude x.rank) with ⟨habs, -⟩ | ⟨habs, -⟩
        · right
          linarith
        · left
          linarith
      rcases hle with hle | hle
      · have hzero : x.rank = 0 := by
          rw [h.eq_zero_iff, le_antisymm hle hq, zero_mul]
          norm_num
        rw [hzero]
      · have hzero : x.value = 0 := by rw [value_eq, le_antisymm hle hx, withSign_zero]
        have hzero' : y.value = 0 := by rw [value_eq, hr, le_antisymm hle hx, withSign_zero]
        exact absurd (hzero'.trans hzero.symm) hne
    · exact (hdist hr).2 (le_antisymm (hdist hr).1 ((hflip y).trans heq.ge))

/-- Between two values of even rank there is another value. -/
theorem exists_between_of_even {x y : Finite64} (h : x.value < y.value) (hx : x.rank % 2 = 0)
    (hy : y.rank % 2 = 0) : ∃ z : Finite64, x.value < z.value ∧ z.value < y.value := by
  have hxlt := x.rank_lt
  have hylt := y.rank_lt
  have hxabs := x.abs_value
  have hyabs := y.abs_value
  rcases lt_or_ge x.value 0 with hneg | hnonneg
  · rcases lt_or_ge 0 y.value with hpos | hnonpos
    · -- zero lies between
      have hzero : (⟨false, 0, by decide⟩ : Finite64).value = 0 := value_eq_zero_iff.2 rfl
      exact ⟨⟨false, 0, by decide⟩, hzero ▸ hneg, hzero ▸ hpos⟩
    · -- of two negative values the lower one has the higher rank
      rw [abs_of_neg hneg] at hxabs
      rw [abs_of_nonpos hnonpos] at hyabs
      have hrank : y.rank < x.rank := magnitude_strictMono.lt_iff_lt.1 (by linarith)
      -- two even ranks are two apart at least
      have hlow := magnitude_strictMono (show y.rank + 1 < x.rank by omega)
      have hhigh := magnitude_strictMono (Nat.lt_succ_self y.rank)
      refine ⟨⟨true, y.rank + 1, by omega⟩, ?_, ?_⟩
      · show x.value < -magnitude (y.rank + 1)
        linarith
      · show -magnitude (y.rank + 1) < y.value
        linarith
  · rw [abs_of_nonneg hnonneg] at hxabs
    rw [abs_of_pos (hnonneg.trans_lt h)] at hyabs
    have hrank : x.rank < y.rank := magnitude_strictMono.lt_iff_lt.1 (by linarith)
    have hlow := magnitude_strictMono (Nat.lt_succ_self x.rank)
    have hhigh := magnitude_strictMono (show x.rank + 1 < y.rank by omega)
    refine ⟨⟨false, x.rank + 1, by omega⟩, ?_, ?_⟩
    · show x.value < magnitude (x.rank + 1)
      linarith
    · show magnitude (x.rank + 1) < y.value
      linarith

/-- Of two closest values none lies above the other: what lies between them would be nearer. -/
theorem IsClosest.le_value {x y : Finite64} {q : ℚ} (hx : x.IsClosest q) (hy : y.IsClosest q) :
    y.value ≤ x.value := by
  by_contra hlt
  rw [not_le] at hlt
  have hdist : |q - x.value| = |q - y.value| := le_antisymm (hx.le y) (hy.le x)
  -- both lie at the same distance, so both are even, and what lies between them is nearer
  obtain ⟨z, hxz, hzy⟩ := exists_between_of_even hlt (hx.even y hlt.ne' hdist)
    (hy.even x hlt.ne hdist.symm)
  have hmiddle : q - x.value = -(q - y.value) :=
    (abs_eq_abs.1 hdist).resolve_left fun heq => hlt.ne (by linarith)
  have hnearer : |q - z.value| < q - x.value := abs_lt.2 ⟨by linarith, by linarith⟩
  exact absurd (hx.le z) (not_le.2 (hnearer.trans_le (le_abs_self _)))

/-- No rational has two closest values, except for the two zeros. -/
theorem IsClosest.value_unique {x y : Finite64} {q : ℚ} (hx : x.IsClosest q)
    (hy : y.IsClosest q) : x.value = y.value :=
  le_antisymm (hy.le_value hx) (hx.le_value hy)

/-- Whether a value is closest does not depend on the sign of a zero. -/
theorem IsClosest.of_value_eq {x y : Finite64} {q : ℚ} (hx : x.IsClosest q)
    (h : y.value = x.value) : y.IsClosest q := by
  have hrank : y.rank = x.rank := by
    have habs := congrArg abs h
    rwa [abs_value, abs_value, magnitude_strictMono.injective.eq_iff] at habs
  constructor
  · rw [h]
    exact hx.le
  · rw [h, hrank]
    exact hx.even

end Finite64

/-! ## What a rational rounds to -/

namespace Binary64

/-- What the rational `q` rounds to, with the sign `neg` for a zero and for an infinity: the closest
finite value if the magnitude lies below the bound of the finite range, and else an infinity. -/
structure Rounds (z : Binary64) (neg : Bool) (q : ℚ) : Prop where
  finite : |q| < 2 ^ 1024 - 2 ^ 970 → ∃ x : Finite64, z = .finite x ∧ x.neg = neg ∧ x.IsClosest q
  infinite : 2 ^ 1024 - 2 ^ 970 ≤ |q| → z = .infinity neg

/-- The order of the values that are numbers; the two zeros are below each other. -/
inductive Le : Binary64 → Binary64 → Prop where
  | finite {x y : Finite64} (h : x.value ≤ y.value) : Le (.finite x) (.finite y)
  | fromBottom {z : Binary64} (h : z ≠ .nan) : Le (.infinity true) z
  | toTop {z : Binary64} (h : z ≠ .nan) : Le z (.infinity false)

theorem ofRank_eq_finite {neg : Bool} {r : Nat} {x : Finite64} (h : ofRank neg r = .finite x) :
    x.neg = neg ∧ x.rank = r := by
  unfold ofRank at h
  split at h
  · cases h
    exact ⟨rfl, rfl⟩
  · cases h

theorem ofRank_ne_nan (neg : Bool) (r : Nat) : ofRank neg r ≠ .nan := by
  intro h
  unfold ofRank at h
  split at h
  · cases h
  · cases h

/-- Ranks are in the order of the values without a sign, up to the infinity. -/
theorem ofRank_le_ofRank {r s : Nat} (h : r ≤ s) : Le (ofRank false r) (ofRank false s) := by
  by_cases hs : s < infinityRank
  · rw [ofRank, dif_pos (h.trans_lt hs), ofRank, dif_pos hs]
    exact .finite (magnitude_strictMono.monotone h)
  · rw [ofRank.eq_def false s, dif_neg hs]
    exact .toTop (ofRank_ne_nan false r)

/-- With a minus the order turns around. -/
theorem ofRank_neg_le_ofRank_neg {r s : Nat} (h : r ≤ s) :
    Le (ofRank true s) (ofRank true r) := by
  by_cases hs : s < infinityRank
  · rw [ofRank, dif_pos hs, ofRank, dif_pos (h.trans_lt hs)]
    exact .finite (neg_le_neg (magnitude_strictMono.monotone h))
  · rw [ofRank.eq_def true s, dif_neg hs]
    exact .fromBottom (ofRank_ne_nan true r)

/-- No negative value is above a positive one. -/
theorem ofRank_neg_le_ofRank (r s : Nat) : Le (ofRank true r) (ofRank false s) := by
  by_cases hr : r < infinityRank
  · by_cases hs : s < infinityRank
    · rw [ofRank, dif_pos hr, ofRank, dif_pos hs]
      exact .finite ((neg_nonpos.2 (magnitude_nonneg r)).trans (magnitude_nonneg s))
    · rw [ofRank.eq_def false s, dif_neg hs]
      exact .toTop (ofRank_ne_nan true r)
  · rw [ofRank, dif_neg hr]
    exact .fromBottom (ofRank_ne_nan false s)

end Binary64

namespace Decimal

variable {d e : Decimal} {rank : Nat}

/-- A decimal that rounds to a finite value lies in the rounding interval of its rank. -/
theorem toBinary64_eq_finite {neg : Bool} {x : Finite64} (h : d.toBinary64 neg = .finite x) :
    x.neg = neg ∧ IsNearest (d.value * unitsPerOne) x.rank := by
  obtain ⟨r, hr, -⟩ := nearestRank_spec d
  rw [toBinary64_of_isNearest neg hr] at h
  obtain ⟨hneg, rfl⟩ := ofRank_eq_finite h
  exact ⟨hneg, hr⟩

/-- The nearest value of a decimal is what the decimal rounds to. -/
theorem rounds_toBinary64 (neg : Bool) (d : Decimal) :
    (d.toBinary64 neg).Rounds neg (withSign neg d.value) := by
  have hfinite : (∃ x, d.toBinary64 neg = .finite x) ↔
      |withSign neg d.value| < 2 ^ 1024 - 2 ^ 970 := by
    rw [abs_withSign neg d.value_nonneg]
    exact exists_finite_iff neg d
  constructor
  · intro hrange
    obtain ⟨x, hx⟩ := hfinite.2 hrange
    obtain ⟨hneg, hnearest⟩ := toBinary64_eq_finite hx
    refine ⟨x, hx, hneg, ?_⟩
    rw [← hneg]
    exact Finite64.isClosest_of_isNearest d.value_nonneg hnearest
  · intro hrange
    have hnot : ¬ ∃ x, d.toBinary64 neg = .finite x := fun h => not_lt.2 hrange (hfinite.1 h)
    unfold toBinary64 ofRank at hnot ⊢
    split
    · rename_i hlt
      exact absurd ⟨_, dif_pos hlt⟩ hnot
    · rfl

/-- Rounding keeps the order. -/
theorem toBinary64_mono {neg other : Bool}
    (h : withSign neg d.value ≤ withSign other e.value) :
    Le (d.toBinary64 neg) (e.toBinary64 other) := by
  have hone : (0 : ℚ) ≤ unitsPerOne := Nat.cast_nonneg _
  have hd := d.value_nonneg
  have he := e.value_nonneg
  obtain ⟨r, hr, -⟩ := nearestRank_spec d
  obtain ⟨s, hs, -⟩ := nearestRank_spec e
  rw [toBinary64_of_isNearest neg hr, toBinary64_of_isNearest other hs]
  cases neg with
  | false =>
    cases other with
    | false => exact ofRank_le_ofRank (hr.mono hs (mul_le_mul_of_nonneg_right h hone))
    | true =>
      -- both decimals are zero
      rw [withSign_false, withSign_true] at h
      have hd0 : d.value = 0 := by linarith
      have he0 : e.value = 0 := by linarith
      have hr0 : r = 0 := by
        rw [hr.eq_zero_iff, hd0, zero_mul]
        norm_num
      have hs0 : s = 0 := by
        rw [hs.eq_zero_iff, he0, zero_mul]
        norm_num
      rw [hr0, hs0]
      refine .finite (le_of_eq ?_)
      rw [Finite64.value_eq_zero_iff.2 rfl, Finite64.value_eq_zero_iff.2 rfl]
  | true =>
    cases other with
    | false => exact ofRank_neg_le_ofRank r s
    | true =>
      have hle : e.value ≤ d.value := neg_le_neg_iff.1 h
      exact ofRank_neg_le_ofRank_neg (hs.mono hr (mul_le_mul_of_nonneg_right hle hone))

end Decimal

end JsonTree
