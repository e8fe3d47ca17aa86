import JsonTree.Proofs.IntegerReading
import JsonTree.Proofs.TwoSpellings

/-!
# Floats that become integers

A number that is made of a finite value holds the canonical text, and its datum is what that text
says. The text of an integer below 10^21 has neither point nor exponent: it is an integer text, and
if the integer fits 64 bits, it is the datum. The integer is the one that the digits spell, which
from 2^53 on need not be the value; but it always rounds to the value.

- `Decimal.spell_canonical_cases`: a canonical spelling shows a point, an exponent, or an integer.
- `Decimal.value_shortest_of_le`: up to 2^53 the digits spell the value.
- `Finite64.isIntegral_iff_exp`: the integers among the values, by their shortest decimal.
- `Finite64.spell_of_integerDenotes`: the canonical texts that denote integers.
- `Number.datum_of_finite`: the datum of a number that is made of a finite value.
-/

namespace JsonTree

open Binary64 FloatSyntax

/-- The magnitudes of 53 bits that are moved to the left. -/
theorem Binary64.magnitude_block {k m : Nat} (hlow : 2 ^ 52 ≤ m) (hhigh : m ≤ 2 ^ 53) :
    magnitude ((k + 1074) * 2 ^ 52 + m) = m * 2 ^ k := by
  -- the exponent is kept a variable, so that no power of that size is computed
  obtain ⟨j, hj⟩ : ∃ j, 1074 = j := ⟨1074, rfl⟩
  have hone := cast_unitsPerOne_pos
  have hunits : m * 2 ^ (k + 1074) = m * 2 ^ k * unitsPerOne := by
    rw [unitsPerOne_eq hj, hj, pow_add, Nat.mul_assoc]
  rw [magnitude, units_block (Or.inr hlow) hhigh, hunits, Nat.cast_mul,
    mul_div_cancel_right₀ _ hone.ne']
  push_cast
  rfl

namespace Decimal

variable {d : Decimal} {rank : Nat}

/-! ## Digits and zeros -/

theorem spell_canonical_eq (hexp : 0 ≤ d.exp) (hlead : d.leadingExp < 21) :
    d.spell .canonical = d.digits ++ List.replicate d.exp.toNat '0' := by
  have hplain : d.spell .canonical = d.spellPlain false :=
    if_pos ⟨(by decide : (-6 : Int) ≤ 0).trans (hexp.trans d.exp_le_leadingExp), hlead⟩
  rw [hplain, spellPlain, if_pos hexp]
  exact List.append_nil _

/-- A canonical spelling shows a point, an exponent, or an integer below 10^21. -/
theorem spell_canonical_cases (d : Decimal) :
    '.' ∈ d.spell .canonical ∨ 'e' ∈ d.spell .canonical ∨ (0 ≤ d.exp ∧ d.leadingExp < 21) := by
  by_cases hplain : -6 ≤ d.leadingExp ∧ d.leadingExp < 21
  · rcases lt_or_ge d.exp 0 with hexp | hexp
    · have hspell : d.spell .canonical = d.spellPlain false := if_pos hplain
      rw [hspell, ← spellPlain_of_exp_neg hexp true]
      exact Or.inl d.point_mem_spellPlain
    · exact Or.inr (Or.inr ⟨hexp, hplain.2⟩)
  · have hspell : d.spell .canonical = d.spellScientific := if_neg hplain
    rw [hspell]
    exact Or.inr (Or.inl d.mark_mem_spellScientific)

/-! ## Integers up to 2^53 -/

/-- Up to 2^53 the shortest decimal of an integer is the integer itself. -/
theorem value_shortest_of_le (h : rank < infinityRank) {n : Nat} (hn : magnitude rank = n)
    (hle : n ≤ 2 ^ 53) : (shortest rank).value = magnitude rank := by
  have hlast : magnitude ((0 + 1074) * 2 ^ 52 + 2 ^ 53) = 2 ^ 53 := by
    rw [magnitude_block (by decide) le_rfl]
    norm_num
  by_cases hzero : rank = 0
  · rw [hzero, shortest_zero, magnitude_zero, value, Nat.cast_zero, zero_mul]
  rcases lt_or_eq_of_le hle with hlt | rfl
  · have hexp := (exp_shortest_nonneg_iff h hzero).2 ⟨n, hn⟩
    obtain ⟨i, hi⟩ : ∃ i : Nat, (shortest rank).value = i := ⟨_, value_eq_natCast hexp⟩
    -- a decimal from 2^53 on would read back as 2^53 or as a greater value
    have hsmall : i < 2 ^ 53 := by
      by_contra hge
      have hlarge : (2 : ℚ) ^ 53 ≤ i := by exact_mod_cast not_lt.1 hge
      have hreads : nearestRank ⟨2 ^ 53, 0⟩ = (0 + 1074) * 2 ^ 52 + 2 ^ 53 :=
        nearestRank_of_value_eq (by decide) (by rw [hlast, value]; norm_num)
      have hrank := le_nearestRank_of_le (d := shortest rank) (by decide) hreads
        (by rw [hi, value]; push_cast; linarith)
      rw [nearestRank_shortest h] at hrank
      have hmagnitude := magnitude_strictMono.monotone hrank
      rw [hlast, hn] at hmagnitude
      exact absurd hlt (not_lt.2 (by exact_mod_cast hmagnitude))
    rw [hi, magnitude_eq_natCast h (nearestRank_shortest h) hsmall hi]
  · rw [Nat.cast_pow, Nat.cast_ofNat, ← hlast, magnitude_strictMono.injective.eq_iff] at hn
    rw [hn, hlast]
    have hshortest : shortest ((0 + 1074) * 2 ^ 52 + 2 ^ 53) = ⟨2 ^ 53, 0⟩ := by decide +kernel
    rw [hshortest, value]
    norm_num

end Decimal

namespace Finite64

/-- No value lies between neighbouring magnitudes. -/
theorem value_le_of_lt {x : Finite64} {rank : Nat} (h : x.value < magnitude (rank + 1)) :
    x.value ≤ magnitude rank := by
  rcases le_or_gt x.value 0 with hneg | hpos
  · exact hneg.trans (magnitude_nonneg rank)
  · rw [← abs_of_pos hpos, abs_value] at h ⊢
    exact magnitude_strictMono.monotone (Nat.le_of_lt_succ (magnitude_strictMono.lt_iff_lt.1 h))

/-- The largest value below 2^64. -/
def greatestUnsigned : Finite64 := ⟨false, 0x43EFFFFFFFFFFFFF, by decide⟩

theorem value_greatestUnsigned : greatestUnsigned.value = 2 ^ 64 - 2 ^ 11 := by
  have hmagnitude := magnitude_block (k := 11) (m := 2 ^ 53 - 1) (by decide) (by decide)
  refine (congrArg id hmagnitude).trans ?_
  norm_num

theorem value_le_greatestUnsigned {x : Finite64} (h : x.value < 2 ^ 64) :
    x.value ≤ greatestUnsigned.value := by
  have hend : magnitude (greatestUnsigned.rank + 1) = 2 ^ 64 := by
    refine (magnitude_block (k := 11) (m := 2 ^ 53) (by decide) le_rfl).trans ?_
    norm_num
  exact value_le_of_lt (h.trans_eq hend.symm)

/-! ## Canonical texts that denote integers -/

theorem value_shown (x : Finite64) : (x.shown .canonical).value = x.value := by
  rw [value_inj, ← canonicalText_inj, canonicalText_shown]

/-- A value is an integer exactly if its shortest decimal is. -/
theorem isIntegral_iff_exp (x : Finite64) :
    IsIntegral x.value ↔ 0 ≤ (Decimal.shortest x.rank).exp := by
  by_cases hrank : x.rank = 0
  · rw [hrank, Decimal.shortest_zero]
    exact iff_of_true ⟨0, by rw [value_eq_zero_iff.2 hrank, Int.cast_zero]⟩ le_rfl
  · rw [isIntegral_iff, Decimal.exp_shortest_nonneg_iff x.rank_lt hrank]

/-- A canonical text that denotes an integer is that of an integer below 10^21, and denotes the
shortest decimal. -/
theorem spell_of_integerDenotes {x : Finite64} {i : Int}
    (h : IntegerDenotes (x.spell .canonical) i) :
    0 ≤ (Decimal.shortest x.rank).exp ∧ (Decimal.shortest x.rank).leadingExp < 21 ∧
      (i : ℚ) = withSign (x.shown .canonical).neg (Decimal.shortest x.rank).value := by
  have hread := readInteger_eq_some_iff.2 h
  have hvalue := ((x.isNumeral_spell .canonical).denotes_of_readInteger hread).unique
    (x.denotes_spell .canonical)
  have hdigit : ∀ c ∈ (Decimal.shortest x.rank).spell .canonical,
      c.isDigit ∨ c = '-' ∨ c = '+' := by
    intro c hc
    refine isDigit_of_readInteger hread c ?_
    rw [spell_eq]
    split
    · exact List.mem_cons_of_mem _ hc
    · exact hc
  rcases (Decimal.shortest x.rank).spell_canonical_cases with hpoint | hmark | ⟨hexp, hlead⟩
  · exact absurd (hdigit '.' hpoint) (by decide)
  · exact absurd (hdigit 'e' hmark) (by decide)
  · exact ⟨hexp, hlead, hvalue⟩

theorem exists_integerDenotes {x : Finite64} (hexp : 0 ≤ (Decimal.shortest x.rank).exp)
    (hlead : (Decimal.shortest x.rank).leadingExp < 21) :
    ∃ i, IntegerDenotes (x.spell .canonical) i := by
  have hcoeff : (Decimal.shortest x.rank).coeff ≠ 0 ∨ (Decimal.shortest x.rank).exp = 0 := by
    by_cases hrank : x.rank = 0
    · exact Or.inr (by rw [hrank, Decimal.shortest_zero])
    · exact Or.inl (Decimal.shortest_coeff_ne_zero x.rank_lt hrank)
  have hdigits : IsNumeral.Digits ((Decimal.shortest x.rank).spell .canonical) := by
    rw [Decimal.spell_canonical_eq hexp hlead]
    exact (Decimal.whole_digits_zeros hcoeff).digits
  rw [spell_eq]
  cases (x.shown .canonical).neg with
  | false => exact ⟨_, .mk .absent hdigits⟩
  | true => exact ⟨_, .mk .minus hdigits⟩

/-- The integer that a canonical text denotes rounds to the value, and to no other one. -/
theorem isClosest_iff_of_integerDenotes {x : Finite64} {k : MachineInt}
    (h : IntegerDenotes (x.spell .canonical) k.val) (y : Finite64) :
    y.IsClosest k.val ↔ y.value = x.value := by
  have htext : IntegerDenotes (⟨x.canonicalText⟩ : Number .safe).text.toList k.val := by
    rwa [canonicalText, String.toList_ofList]
  obtain ⟨z, hz, hclosest, -⟩ :=
    Number.closest_of_integerDenotes htext k.nativeInt.abs_lt_overflowBound
  rw [Number.toBinary64_canonical] at hz
  cases hz
  rw [← x.value_shown]
  exact ⟨fun hy => hy.value_unique hclosest, hclosest.of_value_eq⟩

end Finite64

namespace Number

variable {p : Policy} {x : Finite64}

/-! ## The datum of a finite value -/

/-- The datum is an integer exactly if the canonical text denotes it. -/
theorem datum_canonicalText (k : MachineInt) :
    (⟨x.canonicalText⟩ : Number p).datum = .num (.int k) ↔
      IntegerDenotes (x.spell .canonical) k.val := by
  rw [datum_eq_int_iff, Finite64.canonicalText, String.toList_ofList]

/-- If the datum is no integer, it is the value. -/
theorem datum_of_no_integer (h : ∀ k, (⟨x.canonicalText⟩ : Number p).datum ≠ .num (.int k)) :
    (⟨x.canonicalText⟩ : Number p).datum = .num (.float x) := by
  have hx : x ≠ .zero true := by
    rintro rfl
    refine h ⟨0, by decide, by decide⟩ ((datum_canonicalText _).2 ?_)
    exact readInteger_eq_some_iff.1 (by decide)
  rw [datum_of_not_integer h, toBinary64_canonical, Finite64.shown_canonical hx, Datum.saturated]

/-- An integer that the canonical text denotes is the datum if it fits. -/
theorem exists_datum_of_integerDenotes {i : Int} (h : IntegerDenotes (x.spell .canonical) i)
    (hlower : -2 ^ 63 ≤ i) (hupper : i ≤ 2 ^ 64 - 1) :
    ∃ k, (⟨x.canonicalText⟩ : Number p).datum = .num (.int k) ∧ k.val = i :=
  ⟨⟨i, by omega, by omega⟩, (datum_canonicalText _).2 h, rfl⟩

/-- Integers up to 2^53 are their own datum. -/
theorem datum_of_small (hintegral : IsIntegral x.value) (hle : |x.value| ≤ 2 ^ 53) :
    ∃ k, (⟨x.canonicalText⟩ : Number p).datum = .num (.int k) ∧ (k.val : ℚ) = x.value := by
  have hlead : (Decimal.shortest x.rank).leadingExp < 21 := by
    -- 2^53 lies below 10^21, where the canonical text gets an exponent
    by_cases hzero : x.value = 0
    · rw [Finite64.value_eq_zero_iff.1 hzero, Decimal.shortest_zero]
      decide
    · rw [Finite64.leadingExp_lt_iff hzero 21 (by decide +kernel)]
      have hlt : magnitude ((0 + 1074) * 2 ^ 52 + 2 ^ 53) < magnitude Finite64.sextillion.rank :=
        magnitude_strictMono (by decide +kernel)
      rw [magnitude_block (by decide) le_rfl] at hlt
      refine hle.trans_lt (lt_of_eq_of_lt ?_ hlt)
      norm_num
  obtain ⟨i, hi⟩ := Finite64.exists_integerDenotes (x.isIntegral_iff_exp.1 hintegral) hlead
  obtain ⟨-, -, hvalue⟩ := Finite64.spell_of_integerDenotes hi
  obtain ⟨n, hn⟩ := x.isIntegral_iff.1 hintegral
  have hsmall : n ≤ 2 ^ 53 := by
    rw [Finite64.abs_value, hn] at hle
    exact_mod_cast hle
  -- up to 2^53 a shortest decimal of an integer is the integer itself
  have hself : (i : ℚ) = x.value := by
    rw [hvalue, Decimal.value_shortest_of_le x.rank_lt hn hsmall]
    exact x.value_shown
  have habs : |i| ≤ 2 ^ 53 := by
    rw [← hself] at hle
    exact_mod_cast hle
  obtain ⟨hlower, hupper⟩ := abs_le.1 habs
  obtain ⟨k, hk, rfl⟩ := exists_datum_of_integerDenotes (p := p) hi (by omega) (by omega)
  exact ⟨k, hk, hself⟩

/-- The integer at the lower end of the signed range does not become an integer: its digits and
zeros spell one below the range. -/
theorem datum_of_least (hx : x.value = -2 ^ 63) :
    (⟨x.canonicalText⟩ : Number p).datum = .num (.float x) := by
  have hrank : x.rank = (10 + 1074) * 2 ^ 52 + 2 ^ 53 := by
    rw [← magnitude_strictMono.injective.eq_iff, magnitude_block (by decide) le_rfl,
      ← Finite64.abs_value, hx, abs_neg]
    norm_num
  have hshortest : Decimal.shortest ((10 + 1074) * 2 ^ 52 + 2 ^ 53) = ⟨9223372036854776, 3⟩ := by
    decide +kernel
  -- the text would denote -9223372036854776000, which lies below the signed range
  refine datum_of_no_integer fun k hk => ?_
  obtain ⟨-, -, hvalue⟩ := Finite64.spell_of_integerDenotes ((datum_canonicalText k).1 hk)
  have hneg : (x.shown .canonical).neg = true := by
    rw [← Finite64.value_neg_iff, hx]
    norm_num
  rw [hneg, withSign_true, hrank, hshortest, Decimal.value] at hvalue
  have hlower : (-2 ^ 63 : ℚ) ≤ k.val := by exact_mod_cast k.lower
  norm_num at hvalue hlower
  linarith

/-- The largest value below 2^64 becomes an integer, and not the one that it is. -/
theorem datum_of_greatest (hlt : x.value < 2 ^ 64)
    (hgreatest : ∀ y : Finite64, y.value < 2 ^ 64 → y.value ≤ x.value) :
    ∃ k, (⟨x.canonicalText⟩ : Number p).datum = .num (.int k) ∧ (k.val : ℚ) ≠ x.value := by
  have hvalue : x.value = Finite64.greatestUnsigned.value := by
    refine le_antisymm (Finite64.value_le_greatestUnsigned hlt) (hgreatest _ ?_)
    rw [Finite64.value_greatestUnsigned]
    norm_num
  have hpos : 0 < x.value := by
    rw [hvalue, Finite64.value_greatestUnsigned]
    norm_num
  -- the rank is known, so the shortest decimal can be computed
  have hrank : x.rank = Finite64.greatestUnsigned.rank := by
    have habs := congrArg abs hvalue
    rwa [Finite64.abs_value, Finite64.abs_value, magnitude_strictMono.injective.eq_iff] at habs
  have hshortest : Decimal.shortest x.rank = ⟨1844674407370955, 4⟩ := by
    rw [hrank]
    decide +kernel
  have hneg : (x.shown .canonical).neg = false := by
    rw [← Bool.not_eq_true, ← Finite64.value_neg_iff]
    exact not_lt.2 hpos.le
  obtain ⟨i, hi⟩ := Finite64.exists_integerDenotes (x := x) (by rw [hshortest]; decide)
    (by rw [hshortest]; decide)
  obtain ⟨-, -, hspelled⟩ := Finite64.spell_of_integerDenotes hi
  rw [hneg, withSign_false, hshortest, Decimal.value_eq_natCast (by decide)] at hspelled
  obtain rfl : i = 18446744073709550000 := by exact_mod_cast hspelled
  obtain ⟨k, hk, hval⟩ := exists_datum_of_integerDenotes (p := p) hi (by decide) (by decide)
  refine ⟨k, hk, ?_⟩
  rw [hval, hvalue, Finite64.value_greatestUnsigned]
  norm_num

/-- A finite value makes a number whose datum is of integer kind exactly if the value is an integer
and the canonical text denotes an integer that fits 64 bits, signed or unsigned; else the datum is
the value itself. The integer is the one of the text, which has the digits of a shortest decimal and
zeros behind them, and the values closest to it are the ones numerically equal to the value that it
was made of. Up to 2^53 it is exactly the value. -2^63 stays a float, and the largest value below
2^64 becomes an integer that differs from it. -/
theorem datum_of_finite (p : Policy) (x : Finite64) :
    ∃ n : Number p, ofBinary64 p (.finite x) = .ok n ∧
      ((∃ k, n.datum = .num (.int k)) ↔ IsIntegral x.value ∧
        ∃ i : Int, IntegerDenotes n.text.toList i ∧ -2 ^ 63 ≤ i ∧ i ≤ 2 ^ 64 - 1) ∧
      ((¬ ∃ k, n.datum = .num (.int k)) → n.datum = .num (.float x)) ∧
      (∀ k, n.datum = .num (.int k) →
        IntegerDenotes n.text.toList k.val ∧
        (∀ y : Finite64, y.IsClosest k.val ↔ y.value = x.value) ∧
        (x.value ≠ 0 → ∃ d : Decimal, d.IsShortest x ∧ 0 ≤ d.exp ∧
          n.text = String.ofList ((if x.value < 0 then ['-'] else []) ++
            (d.digits ++ List.replicate d.exp.toNat '0')) ∧
          (k.val : ℚ) = withSign x.neg d.value)) ∧
      (IsIntegral x.value → |x.value| ≤ 2 ^ 53 →
        ∃ k, n.datum = .num (.int k) ∧ (k.val : ℚ) = x.value) ∧
      (x.value = -2 ^ 63 → n.datum = .num (.float x)) ∧
      (x.value < 2 ^ 64 → (∀ y : Finite64, y.value < 2 ^ 64 → y.value ≤ x.value) →
        ∃ k, n.datum = .num (.int k) ∧ (k.val : ℚ) ≠ x.value) := by
  have hchars : (⟨x.canonicalText⟩ : Number p).text.toList = x.spell .canonical :=
    String.toList_ofList
  refine ⟨⟨x.canonicalText⟩, ofBinary64_finite p x, ⟨?_, ?_⟩, fun h => ?_, fun k hk => ?_,
    datum_of_small, datum_of_least, datum_of_greatest⟩
  · rintro ⟨k, hk⟩
    have hdenotes := (datum_canonicalText k).1 hk
    have hlower := k.lower
    have hupper := k.upper
    refine ⟨x.isIntegral_iff_exp.2 (Finite64.spell_of_integerDenotes hdenotes).1, k.val, ?_,
      by omega, by omega⟩
    rwa [hchars]
  · rintro ⟨-, i, hi, hlower, hupper⟩
    rw [hchars] at hi
    obtain ⟨k, hk, -⟩ := exists_datum_of_integerDenotes (p := p) hi hlower hupper
    exact ⟨k, hk⟩
  · exact datum_of_no_integer fun k hk => h ⟨k, hk⟩
  · have hdenotes := (datum_canonicalText k).1 hk
    rw [hchars]
    refine ⟨hdenotes, Finite64.isClosest_iff_of_integerDenotes hdenotes, fun hx => ?_⟩
    -- a text that denotes an integer has neither point nor exponent, so it is digits and zeros
    obtain ⟨hexp, hlead, hvalue⟩ := Finite64.spell_of_integerDenotes hdenotes
    refine ⟨_, Finite64.isShortest_shortest hx, hexp, ?_, ?_⟩
    · show x.canonicalText = _
      rw [Finite64.canonicalText, Finite64.spell_eq, Decimal.spell_canonical_eq hexp hlead]
      simp only [Finite64.value_neg_iff]
      split
      · rfl
      · rfl
    · have hne : x ≠ .zero true := by
        rintro rfl
        exact hx (Finite64.value_eq_zero_iff.2 rfl)
      rwa [Finite64.shown_canonical hne] at hvalue

/-- An integer of 53 bits; the one at the lower end of the signed range; and the largest value below
2^64, which is 432 less than the integer that it becomes. -/
theorem datum_of_finite_at_limits :
    ((IsIntegral (⟨true, 0x4330000000000001, by decide⟩ : Finite64).value ∧
        |(⟨true, 0x4330000000000001, by decide⟩ : Finite64).value| ≤ 2 ^ 53) ∧
      ∃ n : Number .safe, ofBinary64 .safe (.finite ⟨true, 0x4330000000000001, by decide⟩) = .ok n ∧
        ∃ k, n.datum = .num (.int k) ∧ (k.val : ℚ) = -4503599627370497) ∧
    ((⟨true, 0x43E0000000000000, by decide⟩ : Finite64).value = -2 ^ 63 ∧
      ∃ n : Number .safe, ofBinary64 .safe (.finite ⟨true, 0x43E0000000000000, by decide⟩) = .ok n ∧
        n.datum = .num (.float ⟨true, 0x43E0000000000000, by decide⟩)) ∧
    (Finite64.greatestUnsigned.value < 2 ^ 64 ∧
      (∀ y : Finite64, y.value < 2 ^ 64 → y.value ≤ Finite64.greatestUnsigned.value) ∧
      ∃ n : Number .safe, ofBinary64 .safe (.finite .greatestUnsigned) = .ok n ∧
        ∃ k, n.datum = .num (.int k) ∧ (k.val : ℚ) ≠ Finite64.greatestUnsigned.value ∧
          ∀ y : Finite64, y.IsClosest k.val ↔ y.value = Finite64.greatestUnsigned.value) := by
  have hsmall : (⟨true, 0x4330000000000001, by decide⟩ : Finite64).value = -4503599627370497 := by
    have hmagnitude := magnitude_block (k := 0) (m := 2 ^ 52 + 1) (by decide) (by decide)
    refine (congrArg Neg.neg hmagnitude).trans ?_
    norm_num
  have hleast : (⟨true, 0x43E0000000000000, by decide⟩ : Finite64).value = -2 ^ 63 := by
    have hmagnitude := magnitude_block (k := 10) (m := 2 ^ 53) (by decide) (by decide)
    refine (congrArg Neg.neg hmagnitude).trans ?_
    norm_num
  have hintegral : IsIntegral (⟨true, 0x4330000000000001, by decide⟩ : Finite64).value :=
    ⟨-4503599627370497, by rw [hsmall]; norm_num⟩
  have hle : |(⟨true, 0x4330000000000001, by decide⟩ : Finite64).value| ≤ 2 ^ 53 := by
    rw [hsmall]
    norm_num
  have hgreatest : Finite64.greatestUnsigned.value < 2 ^ 64 := by
    rw [Finite64.value_greatestUnsigned]
    norm_num
  have hlast : ∀ y : Finite64, y.value < 2 ^ 64 → y.value ≤ Finite64.greatestUnsigned.value :=
    fun _ => Finite64.value_le_greatestUnsigned
  obtain ⟨n, hn, -, -, -, hexact, -, -⟩ :=
    datum_of_finite .safe ⟨true, 0x4330000000000001, by decide⟩
  obtain ⟨k, hk, hval⟩ := hexact hintegral hle
  obtain ⟨m, hm, -, -, -, -, hfloat, -⟩ :=
    datum_of_finite .safe ⟨true, 0x43E0000000000000, by decide⟩
  obtain ⟨l, hl, -, -, hrounds, -, -, hinteger⟩ := datum_of_finite .safe .greatestUnsigned
  obtain ⟨j, hj, hne⟩ := hinteger hgreatest hlast
  exact ⟨⟨⟨hintegral, hle⟩, n, hn, k, hk, hval.trans hsmall⟩, ⟨hleast, m, hm, hfloat hleast⟩,
    hgreatest, hlast, l, hl, j, hj, hne, (hrounds j hj).2.1⟩

end Number

end JsonTree
