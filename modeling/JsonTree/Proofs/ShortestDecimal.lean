import JsonTree.Decimal.Layout
import JsonTree.Proofs.NearestValue

/-!
# The search for the shortest decimal

The search goes from coarse grids to fine ones and takes the first point that reads back. On one grid
only the two neighbours of the magnitude need a look: what lies between the magnitude and a decimal
that reads back reads back as well. So no decimal that reads back lies on a coarser grid than the one
that is found, and none on the same grid is nearer.

- `Decimal.nearestRank_eq_iff`: reading back as lying in the rounding interval.
- `Decimal.onGrid_spec`: on one grid the search finds the nearest point that reads back.
- `Decimal.shortestFrom_spec`: from a grid on, it finds the coarsest grid where anything does.
- `Decimal.exp_le_shortest`, `Decimal.closest_shortest`: the shortest decimal against any other that
  reads back.
-/

namespace JsonTree

open Binary64

namespace Binary64

/-- What lies between two rationals that round to a rank does so, too. -/
theorem IsNearest.of_between {x y z : ℚ} {rank : Nat} (hx : IsNearest x rank)
    (hy : IsNearest y rank) (hxz : x ≤ z) (hzy : z ≤ y) : IsNearest z rank where
  upper := by
    rcases hy.upper with hlt | ⟨heq, heven⟩
    · exact Or.inl (hzy.trans_lt hlt)
    · exact (lt_or_eq_of_le (hzy.trans heq.le)).imp_right fun h => ⟨h, heven⟩
  lower := by
    intro below hbelow
    rcases hx.lower below hbelow with hlt | ⟨heq, heven⟩
    · exact Or.inl (hlt.trans_le hxz)
    · exact (lt_or_eq_of_le (heq.le.trans hxz)).imp_right fun h => ⟨h, heven⟩

/-- No positive magnitude is followed by one of more than its double. -/
theorem units_succ_le {rank : Nat} (h : rank ≠ 0) : units (rank + 1) ≤ 2 * units rank := by
  obtain ⟨shift, m, rfl, hm, hlt⟩ := exists_block rank
  rw [units_block hm hlt.le, Nat.add_assoc, units_block (by omega) hlt, ← Nat.mul_assoc]
  exact Nat.mul_le_mul_right _ (by omega)

end Binary64

namespace Decimal

variable {d e : Decimal} {rank : Nat}

/-! ## Reading back -/

/-- A decimal reads back as a rank if the rank is the nearest one. -/
theorem nearestRank_eq_iff (h : rank < infinityRank) :
    d.nearestRank = rank ↔ IsNearest (d.value * unitsPerOne) rank := by
  refine ⟨fun hd => ?_, fun hd => nearestRank_of_isNearest hd h⟩
  obtain ⟨r, hr, hmin⟩ := nearestRank_spec d
  have hrank : r = rank := by omega
  exact hrank ▸ hr

/-- What lies between decimals that read back reads back. -/
theorem nearestRank_of_between {d' : Decimal} (h : rank < infinityRank)
    (hd : d.nearestRank = rank) (hd' : d'.nearestRank = rank) (hle : d.value ≤ e.value)
    (hle' : e.value ≤ d'.value) : e.nearestRank = rank := by
  have hone : (0 : ℚ) ≤ unitsPerOne := Nat.cast_nonneg _
  rw [nearestRank_eq_iff h] at *
  exact hd.of_between hd' (mul_le_mul_of_nonneg_right hle hone)
    (mul_le_mul_of_nonneg_right hle' hone)

/-- What reads back is less than twice the magnitude. -/
theorem value_lt_of_nearestRank (h : rank < infinityRank) (hrank : rank ≠ 0)
    (hd : d.nearestRank = rank) : d.value < 2 * magnitude rank := by
  have hone := cast_unitsPerOne_pos
  have hsucc : (units (rank + 1) : ℚ) ≤ 2 * units rank := by exact_mod_cast units_succ_le hrank
  have hnearest := (nearestRank_eq_iff h).1 hd
  rw [← mul_lt_mul_iff_left₀ hone, mul_assoc, magnitude_mul_unitsPerOne]
  linarith [hnearest.le_midpoint, midpoint_lt_units_succ rank]

/-! ## One grid -/

section Grid

variable {grid c : Nat}

/-- The step of the finest grid. -/
def fineStep : ℚ := 10 ^ (-1074 : ℤ)

theorem fineStep_pos : 0 < fineStep := zpow_pos (by norm_num) _

theorem magnitude_eq (rank : Nat) : magnitude rank = fineUnits rank * fineStep :=
  (value_fineUnits rank).symm

theorem value_eq_mul_fineStep (c grid : Nat) :
    value ⟨c, grid - 1074⟩ = ((c * 10 ^ grid : Nat) : ℚ) * fineStep := by
  rw [value, fineStep, Int.sub_eq_add_neg, zpow_add₀ (by norm_num), zpow_natCast, Nat.cast_mul,
    Nat.cast_pow, Nat.cast_ofNat, mul_assoc]

theorem value_le_value_iff {c c' : Nat} :
    value ⟨c, grid - 1074⟩ ≤ value ⟨c', grid - 1074⟩ ↔ c ≤ c' := by
  have hstep : (0 : ℚ) < 10 ^ ((grid : ℤ) - 1074) := zpow_pos (by norm_num) _
  rw [value, value, mul_le_mul_iff_left₀ hstep, Nat.cast_le]

theorem value_le_magnitude_iff :
    value ⟨c, grid - 1074⟩ ≤ magnitude rank ↔ c ≤ fineUnits rank / 10 ^ grid := by
  rw [value_eq_mul_fineStep, magnitude_eq, mul_le_mul_iff_left₀ fineStep_pos, Nat.cast_le,
    Nat.le_div_iff_mul_le (Nat.pow_pos (by decide))]

/-- Of all multiples, the one by the rounded quotient is nearest. -/
theorem abs_divHalfEven_sub_le (n c : Nat) {d : Nat} (hd : 0 < d) :
    |((divHalfEven n d * d : Nat) : ℚ) - n| ≤ |((c * d : Nat) : ℚ) - n| := by
  obtain ⟨hupper, hlower⟩ := divHalfEven_spec n hd
  generalize divHalfEven n d = near at *
  have hdouble : d * (2 * near) = 2 * (near * d) := by ring
  have hdouble' : d * (2 * near + 1) = 2 * (near * d) + d := by ring
  have hup : (2 * n : ℚ) ≤ 2 * (near * d : Nat) + d := by
    exact_mod_cast (show 2 * n ≤ 2 * (near * d) + d by omega)
  have hlow : (2 * (near * d : Nat) : ℚ) ≤ 2 * n + d := by
    exact_mod_cast (show 2 * (near * d) ≤ 2 * n + d by omega)
  rcases lt_trichotomy c near with hlt | rfl | hgt
  · have hle : ((c * d : Nat) : ℚ) + d ≤ (near * d : Nat) := by
      exact_mod_cast (Nat.succ_mul c d ▸ Nat.mul_le_mul_right d hlt)
    rw [abs_of_nonpos (show ((c * d : Nat) : ℚ) - n ≤ 0 by linarith), abs_le]
    exact ⟨by linarith, by linarith⟩
  · rfl
  · have hle : ((near * d : Nat) : ℚ) + d ≤ (c * d : Nat) := by
      exact_mod_cast (Nat.succ_mul near d ▸ Nat.mul_le_mul_right d hgt)
    rw [abs_of_nonneg (show (0 : ℚ) ≤ ((c * d : Nat) : ℚ) - n by linarith), abs_le]
    exact ⟨by linarith, by linarith⟩

/-- Of the points of a grid, the rounded one is nearest to the magnitude. -/
theorem near_closest (rank grid c : Nat) :
    |value ⟨divHalfEven (fineUnits rank) (10 ^ grid), grid - 1074⟩ - magnitude rank|
      ≤ |value ⟨c, grid - 1074⟩ - magnitude rank| := by
  rw [value_eq_mul_fineStep, value_eq_mul_fineStep, magnitude_eq, ← sub_mul, ← sub_mul, abs_mul,
    abs_mul]
  exact mul_le_mul_of_nonneg_right
    (abs_divHalfEven_sub_le _ c (Nat.pow_pos (by decide))) (abs_nonneg _)

/-- If a point below the magnitude reads back, the last point below it does. -/
theorem nearestRank_below (h : rank < infinityRank) (hc : nearestRank ⟨c, grid - 1074⟩ = rank)
    (hle : c ≤ fineUnits rank / 10 ^ grid) :
    nearestRank ⟨fineUnits rank / 10 ^ grid, grid - 1074⟩ = rank := by
  refine nearestRank_of_between h hc (nearestRank_fineUnits h) (value_le_value_iff.2 hle) ?_
  rw [value_fineUnits, value_le_magnitude_iff]

/-- If a point above the magnitude reads back, the first point above it does. -/
theorem nearestRank_above (h : rank < infinityRank) (hc : nearestRank ⟨c, grid - 1074⟩ = rank)
    (hlt : fineUnits rank / 10 ^ grid < c) :
    nearestRank ⟨fineUnits rank / 10 ^ grid + 1, grid - 1074⟩ = rank := by
  refine nearestRank_of_between h (nearestRank_fineUnits h) hc ?_ (value_le_value_iff.2 hlt)
  have habove : ¬ value ⟨fineUnits rank / 10 ^ grid + 1, grid - 1074⟩ ≤ magnitude rank := by
    rw [value_le_magnitude_iff]
    omega
  rw [value_fineUnits]
  exact (not_le.1 habove).le

theorem find?_pair {α : Type} (p : α → Bool) (a b : α) :
    [a, b].find? p = if p a then some a else if p b then some b else none := by
  by_cases ha : p a
  · rw [List.find?_cons_of_pos ha, if_pos ha]
  · rw [List.find?_cons_of_neg ha, if_neg ha]
    by_cases hb : p b
    · rw [List.find?_cons_of_pos hb, if_pos hb]
    · rw [List.find?_cons_of_neg hb, if_neg hb, List.find?_nil]

/-- The search on one grid: the nearest point if it reads back, and else the other neighbour of the
magnitude if that does. -/
theorem onGrid_eq (rank grid : Nat) {near below far : Nat}
    (hnear : divHalfEven (fineUnits rank) (10 ^ grid) = near)
    (hbelow : fineUnits rank / 10 ^ grid = below)
    (hfar : (if near = below then below + 1 else below) = far) :
    onGrid? rank grid = if nearestRank ⟨near, grid - 1074⟩ = rank then some ⟨near, grid - 1074⟩
      else if nearestRank ⟨far, grid - 1074⟩ = rank then some ⟨far, grid - 1074⟩ else none := by
  rw [onGrid?, natPow_eq]
  simp only [hnear, hbelow, hfar]
  rw [List.map_cons, List.map_cons, List.map_nil, find?_pair]
  simp only [beq_iff_eq]

/-- Where a point of the grid reads back, the search finds the nearest one that does. -/
theorem onGrid_spec (h : rank < infinityRank) (hc : nearestRank ⟨c, grid - 1074⟩ = rank) :
    ∃ m : Nat, onGrid? rank grid = some ⟨m, grid - 1074⟩ ∧
      ∀ c', nearestRank ⟨c', grid - 1074⟩ = rank →
        |value ⟨m, grid - 1074⟩ - magnitude rank| ≤ |value ⟨c', grid - 1074⟩ - magnitude rank| := by
  have hclosest := near_closest rank grid
  have hneighbour : divHalfEven (fineUnits rank) (10 ^ grid) = fineUnits rank / 10 ^ grid ∨
      divHalfEven (fineUnits rank) (10 ^ grid) = fineUnits rank / 10 ^ grid + 1 := by
    unfold divHalfEven
    exact ite_eq_or_eq _ _ _
  have hbelow := fun c => @nearestRank_below rank grid c h
  have habove := fun c => @nearestRank_above rank grid c h
  have hside := fun c => @value_le_magnitude_iff rank grid c
  have heq := fun far => @onGrid_eq rank grid _ _ far rfl rfl
  generalize divHalfEven (fineUnits rank) (10 ^ grid) = near at *
  generalize fineUnits rank / 10 ^ grid = below at *
  by_cases hnear : nearestRank ⟨near, grid - 1074⟩ = rank
  · exact ⟨near, by rw [heq _ rfl, if_pos hnear], fun c' _ => hclosest c'⟩
  -- the nearest point does not read back, so that all that read back lie on the other side
  rcases hneighbour with rfl | rfl
  · have hgt : ∀ c', nearestRank ⟨c', grid - 1074⟩ = rank → near < c' := by
      intro c' hc'
      by_contra hle
      exact hnear (hbelow c' hc' (not_lt.1 hle))
    have hfar := habove c hc (hgt c hc)
    have hnot : ¬ value ⟨near + 1, grid - 1074⟩ ≤ magnitude rank := by
      rw [hside]
      omega
    refine ⟨near + 1, by rw [heq _ (if_pos rfl), if_neg hnear, if_pos hfar], fun c' hc' => ?_⟩
    have hle : value ⟨near + 1, grid - 1074⟩ ≤ value ⟨c', grid - 1074⟩ :=
      value_le_value_iff.2 (hgt c' hc')
    rw [abs_of_nonneg (by linarith), abs_of_nonneg (by linarith)]
    linarith
  · have hle : ∀ c', nearestRank ⟨c', grid - 1074⟩ = rank → c' ≤ below := by
      intro c' hc'
      by_contra hgt
      exact hnear (habove c' hc' (not_le.1 hgt))
    have hfar := hbelow c hc (hle c hc)
    have hmagnitude : value ⟨below, grid - 1074⟩ ≤ magnitude rank := (hside below).2 le_rfl
    have hne : below + 1 ≠ below := by omega
    refine ⟨below, by rw [heq _ (if_neg hne), if_neg hnear, if_pos hfar], fun c' hc' => ?_⟩
    have hle' : value ⟨c', grid - 1074⟩ ≤ value ⟨below, grid - 1074⟩ :=
      value_le_value_iff.2 (hle c' hc')
    rw [abs_of_nonpos (by linarith), abs_of_nonpos (by linarith)]
    linarith

end Grid

/-! ## The search over the grids -/

/-- From a grid on, the search ends on the coarsest grid where anything reads back, at the nearest
point that does. -/
theorem shortestFrom_spec (h : rank < infinityRank) (grid : Nat) :
    ∃ m k : Nat, shortestFrom rank grid = ⟨m, k - 1074⟩ ∧
      ∀ g c : Nat, g ≤ grid → nearestRank ⟨c, g - 1074⟩ = rank → g ≤ k ∧
        (g = k → |value ⟨m, k - 1074⟩ - magnitude rank| ≤ |value ⟨c, k - 1074⟩ - magnitude rank|) := by
  induction grid with
  | zero =>
    refine ⟨fineUnits rank, 0, rfl, fun g c hg _ => ⟨hg, fun _ => ?_⟩⟩
    have hself : value ⟨fineUnits rank, ((0 : Nat) : Int) - 1074⟩ = magnitude rank :=
      value_fineUnits rank
    rw [hself, sub_self, abs_zero]
    exact abs_nonneg _
  | succ grid ih =>
    -- a grid where nothing reads back has no candidate, and the search goes on below it
    by_cases hsome : ∃ c, nearestRank ⟨c, (grid + 1 : Nat) - 1074⟩ = rank
    · obtain ⟨c, hc⟩ := hsome
      obtain ⟨m, hm, hclosest⟩ := onGrid_spec h hc
      refine ⟨m, grid + 1, by rw [shortestFrom, hm, Option.getD_some], fun g c' hg hc' => ⟨hg, ?_⟩⟩
      rintro rfl
      exact hclosest c' hc'
    · have hnone : onGrid? rank (grid + 1) = none := by
        rw [onGrid_eq _ _ rfl rfl rfl, if_neg fun hc => hsome ⟨_, hc⟩,
          if_neg fun hc => hsome ⟨_, hc⟩]
      obtain ⟨m, k, hm, hspec⟩ := ih
      refine ⟨m, k, by rw [shortestFrom, hnone, Option.getD_none, hm], fun g c hg hc => ?_⟩
      rcases Nat.le_succ_iff.1 hg with hle | rfl
      · exact hspec g c hle hc
      · exact absurd ⟨c, hc⟩ hsome

/-- The coarsest grid of the search steps over the magnitude. -/
theorem lt_ten_pow_coarseGrid (w : Nat) : w < 10 ^ coarseGrid w := by
  have hbits : w < 2 ^ (w.log2 + 1) := Nat.lt_log2_self
  have hgrid : (w.log2 + 1) * 28 ≤ 93 * coarseGrid w := by
    unfold coarseGrid
    omega
  have hpow : (2 ^ (w.log2 + 1)) ^ 93 ≤ (10 ^ coarseGrid w) ^ 93 :=
    calc (2 ^ (w.log2 + 1)) ^ 93 = (2 ^ 93) ^ (w.log2 + 1) := pow_right_comm 2 _ 93
      _ ≤ (10 ^ 28) ^ (w.log2 + 1) := Nat.pow_le_pow_left (by norm_num) _
      _ = 10 ^ ((w.log2 + 1) * 28) := by rw [← pow_mul, Nat.mul_comm]
      _ ≤ 10 ^ (93 * coarseGrid w) := Nat.pow_le_pow_right (by norm_num) hgrid
      _ = (10 ^ coarseGrid w) ^ 93 := by rw [← pow_mul, Nat.mul_comm]
  exact hbits.trans_le ((Nat.pow_le_pow_iff_left (by norm_num)).1 hpow)

/-- Nothing on a coarser grid than the first of the search reads back. -/
theorem exp_le_coarseGrid (h : rank < infinityRank) (hrank : rank ≠ 0)
    (he : e.nearestRank = rank) : e.exp ≤ coarseGrid (fineUnits rank) - 1074 := by
  by_contra hlt
  have hcoarse : (fineUnits rank : ℚ) < 10 ^ coarseGrid (fineUnits rank) := by
    exact_mod_cast lt_ten_pow_coarseGrid (fineUnits rank)
  generalize coarseGrid (fineUnits rank) = grid at *
  have hone : (1 : ℚ) ≤ e.coeff := by
    exact_mod_cast Nat.pos_of_ne_zero (coeff_ne_zero_of_nearestRank hrank he)
  have hexp : (10 : ℚ) ^ ((grid : ℤ) - 1074 + 1) ≤ 10 ^ e.exp :=
    zpow_le_zpow_right₀ (by norm_num) (by omega)
  have hsplit : (10 : ℚ) ^ ((grid : ℤ) - 1074 + 1) = 10 * (10 ^ grid * fineStep) := by
    rw [zpow_add_one₀ (by norm_num), Int.sub_eq_add_neg, zpow_add₀ (by norm_num), zpow_natCast,
      mul_comm, fineStep]
  have hmagnitude : magnitude rank < 10 ^ grid * fineStep := by
    rw [magnitude_eq]
    exact mul_lt_mul_of_pos_right hcoarse fineStep_pos
  have hvalue : (10 : ℚ) ^ e.exp ≤ e.value :=
    le_mul_of_one_le_left (zpow_nonneg (by norm_num) _) hone
  have hpos : (0 : ℚ) < 10 ^ grid * fineStep := mul_pos (by positivity) fineStep_pos
  linarith [value_lt_of_nearestRank h hrank he]

/-- What reads back lies on a finer grid than the shortest decimal, or on the same grid and no
nearer to the magnitude. -/
theorem shortest_spec (h : rank < infinityRank) (hrank : rank ≠ 0) (he : e.nearestRank = rank) :
    e.exp ≤ (shortest rank).exp ∧ (e.exp = (shortest rank).exp →
      |(shortest rank).value - magnitude rank| ≤ |e.value - magnitude rank|) := by
  obtain ⟨m, k, hm, hspec⟩ := shortestFrom_spec h (coarseGrid (fineUnits rank))
  rw [shortest, if_neg hrank, hm]
  by_cases hfine : e.exp < -1074
  · constructor
    · show e.exp ≤ (k : Int) - 1074
      omega
    · intro heq
      exact absurd (show e.exp = (k : Int) - 1074 from heq) (by omega)
  · obtain ⟨g, hg⟩ : ∃ g : Nat, e.exp = g - 1074 := ⟨(e.exp + 1074).toNat, by omega⟩
    have hcoarse := exp_le_coarseGrid h hrank he
    obtain ⟨c, exp⟩ := e
    obtain rfl : exp = g - 1074 := hg
    obtain ⟨hle, hclosest⟩ := hspec g c (by simpa using hcoarse) he
    refine ⟨by simpa using hle, fun heq => ?_⟩
    obtain rfl : g = k := by
      have : (g : Int) - 1074 = k - 1074 := heq
      omega
    exact hclosest rfl

/-- No decimal that reads back lies on a coarser grid. -/
theorem exp_le_shortest (h : rank < infinityRank) (hrank : rank ≠ 0)
    (he : e.nearestRank = rank) : e.exp ≤ (shortest rank).exp :=
  (shortest_spec h hrank he).1

/-- No decimal that reads back is nearer on the same grid. -/
theorem closest_shortest (h : rank < infinityRank) (hrank : rank ≠ 0)
    (he : e.nearestRank = rank) (hexp : e.exp = (shortest rank).exp) :
    |(shortest rank).value - magnitude rank| ≤ |e.value - magnitude rank| :=
  (shortest_spec h hrank he).2 hexp

end Decimal

end JsonTree
