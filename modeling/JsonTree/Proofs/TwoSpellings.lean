import JsonTree.Proofs.MachineText
import JsonTree.Proofs.ShortestText

/-!
# The two spellings of a finite value

A number that is made of a finite value holds the canonical text; one that is made of the float holds
the serialized text. Both show the same shortest decimal. The texts are equal where both layouts have
an exponent, and where both are plain and the digits reach behind the point; there the shortest
decimal has a negative exponent, which is to say that the value is no integer.

- `Decimal.exp_shortest_nonneg_iff`: the shortest decimal is an integer exactly if the value is.
- `Decimal.spell_eq_iff`: the decimals that both layouts spell alike.
- `Finite64.texts_of_ne_zero`: the values whose texts are equal.
- `Number.two_spellings`: the two numbers of a finite value.
-/

namespace JsonTree

open Binary64 IsNumeral

/-! ## Integral values -/

namespace Binary64

/-- The value is an integer. -/
def IsIntegral (q : ℚ) : Prop := ∃ n : ℤ, q = n

theorem units_mantissa (m : Nat) (hm : m < 2 ^ 53) (k : Nat) : ∃ rank, units rank = m * 2 ^ k := by
  -- a mantissa of fewer bits is doubled into the block below
  induction k generalizing m with
  | zero => exact ⟨0 * 2 ^ 52 + m, units_block (Or.inl rfl) hm.le⟩
  | succ k ih =>
    by_cases hfull : 2 ^ 52 ≤ m
    · exact ⟨(k + 1) * 2 ^ 52 + m, units_block (Or.inr hfull) hm.le⟩
    · obtain ⟨rank, hrank⟩ := ih (2 * m) (by omega)
      exact ⟨rank, by rw [hrank, Nat.pow_succ, Nat.mul_comm 2 m, Nat.mul_assoc, Nat.mul_comm 2]⟩

/-- Every natural number below 2^53 is a magnitude. -/
theorem exists_magnitude_eq {n : Nat} (h : n < 2 ^ 53) : ∃ rank, magnitude rank = n := by
  obtain ⟨k, hk⟩ : ∃ k, 1074 = k := ⟨1074, rfl⟩
  have hone := cast_unitsPerOne_pos
  obtain ⟨rank, hrank⟩ := units_mantissa n h k
  refine ⟨rank, ?_⟩
  rw [magnitude, hrank, ← unitsPerOne_eq hk, Nat.cast_mul, mul_div_cancel_right₀ _ hone.ne']

/-- From 2^52 on every magnitude is a natural number. -/
theorem exists_natCast_eq {rank : Nat} (h : 2 ^ 52 ≤ magnitude rank) :
    ∃ n : Nat, magnitude rank = n := by
  obtain ⟨k, hk⟩ : ∃ k, 1074 = k := ⟨1074, rfl⟩
  have hone := cast_unitsPerOne_pos
  have hunits : 2 ^ 52 * 2 ^ k ≤ units rank := by
    rw [← mul_le_mul_iff_left₀ hone, magnitude_mul_unitsPerOne] at h
    rw [← unitsPerOne_eq hk]
    exact_mod_cast h
  obtain ⟨shift, m, rfl, hm, hlt⟩ := exists_block rank
  rw [units_block hm hlt.le] at hunits
  -- in a block with a smaller step all magnitudes lie below 2^52
  have hshift : k ≤ shift := by
    by_contra hgt
    have hle : m * 2 ^ shift < 2 ^ 53 * 2 ^ shift :=
      Nat.mul_lt_mul_of_pos_right hlt (Nat.two_pow_pos shift)
    have hpow : 2 ^ 53 * 2 ^ shift ≤ 2 ^ 52 * 2 ^ k := by
      rw [← pow_add, ← pow_add]
      exact Nat.pow_le_pow_right (by decide) (by omega)
    omega
  refine ⟨m * 2 ^ (shift - k), ?_⟩
  have hsplit : m * 2 ^ shift = m * 2 ^ (shift - k) * unitsPerOne := by
    rw [unitsPerOne_eq hk, Nat.mul_assoc, ← pow_add, Nat.sub_add_cancel hshift]
  rw [magnitude, units_block hm hlt.le, hsplit, Nat.cast_mul, mul_div_cancel_right₀ _ hone.ne']

end Binary64

namespace Decimal

variable {d : Decimal} {rank : Nat}

/-- A natural number below 2^53 is the magnitude that it rounds to. -/
theorem magnitude_eq_natCast (h : rank < infinityRank) (hd : d.nearestRank = rank) {n : Nat}
    (hn : n < 2 ^ 53) (hvalue : d.value = n) : magnitude rank = n := by
  obtain ⟨r, hr⟩ := exists_magnitude_eq hn
  have hnearest := (nearestRank_eq_iff h).1 hd
  rw [hvalue, ← hr, magnitude_mul_unitsPerOne] at hnearest
  exact hnearest.unique (isNearest_units r) ▸ hr

/-- The shortest decimal is an integer exactly if the magnitude is. -/
theorem exp_shortest_nonneg_iff (h : rank < infinityRank) (hrank : rank ≠ 0) :
    0 ≤ (shortest rank).exp ↔ ∃ n : Nat, magnitude rank = n := by
  constructor
  · intro hexp
    by_cases hlarge : 2 ^ 52 ≤ magnitude rank
    · exact exists_natCast_eq hlarge
    · have hvalue := value_eq_natCast hexp
      have hlt := value_lt_of_nearestRank h hrank (nearestRank_shortest h)
      rw [hvalue] at hlt
      generalize (shortest rank).coeff * 10 ^ (shortest rank).exp.toNat = n at hvalue hlt
      -- what reads back is less than twice the magnitude
      have hsmall : (n : ℚ) < 2 ^ 53 := by linarith
      exact ⟨n, magnitude_eq_natCast h (nearestRank_shortest h) (by exact_mod_cast hsmall) hvalue⟩
  · rintro ⟨n, hn⟩
    have hreads : nearestRank ⟨n, 0⟩ = rank := by
      refine nearestRank_of_value_eq h ?_
      rw [hn, value, zpow_zero, mul_one]
    exact exp_le_shortest h hrank hreads

/-! ## Decimals in both layouts -/

theorem spellPlain_of_exp_neg (h : d.exp < 0) (pointed : Bool) :
    d.spellPlain pointed = d.spellPlain false := by
  rw [spellPlain, spellPlain, if_neg (not_le.2 h), if_neg (not_le.2 h)]

theorem spellPlain_ne_of_exp_nonneg (h : 0 ≤ d.exp) : d.spellPlain false ≠ d.spellPlain true := by
  rw [spellPlain, spellPlain, if_pos h, if_pos h]
  intro heq
  exact absurd (List.append_cancel_left heq) (by decide)

theorem spellPlain_ne_spellScientific (h : d.coeff % 10 ≠ 0) :
    d.spellPlain false ≠ d.spellScientific := by
  obtain ⟨c, fraction, -, -, -, -, hscientific⟩ := spellScientific_eq h
  intro heq
  refine (plain_spellPlain h).mark_not_mem ?_
  rw [heq, hscientific, spellExponent]
  simp

/-- Both layouts spell a decimal alike where both have an exponent, and behind the point where both
are plain. -/
theorem spell_eq_iff (h : d.coeff % 10 ≠ 0) :
    d.spell .canonical = d.spell .serialized ↔
      (d.exp < 0 ∧ -5 ≤ d.leadingExp ∧ d.leadingExp < 16) ∨
        d.leadingExp < -6 ∨ 21 ≤ d.leadingExp := by
  -- each layout is plain or has an exponent, and where the one of the float is plain both are
  by_cases hcanonical : -6 ≤ d.leadingExp ∧ d.leadingExp < 21
  · have hleft : d.spell .canonical = d.spellPlain false := if_pos hcanonical
    by_cases hserialized : -5 ≤ d.leadingExp ∧ d.leadingExp < 16
    · have hright : d.spell .serialized = d.spellPlain true := if_pos hserialized
      rw [hleft, hright]
      by_cases hexp : d.exp < 0
      · exact iff_of_true (spellPlain_of_exp_neg hexp true).symm (Or.inl ⟨hexp, hserialized⟩)
      · exact iff_of_false (spellPlain_ne_of_exp_nonneg (not_lt.1 hexp)) (by omega)
    · have hright : d.spell .serialized = d.spellScientific := if_neg hserialized
      rw [hleft, hright]
      exact iff_of_false (spellPlain_ne_spellScientific h) (by omega)
  · have hleft : d.spell .canonical = d.spellScientific := if_neg hcanonical
    have hright : d.spell .serialized = d.spellScientific := by
      refine if_neg fun hserialized => ?_
      have hlow : -5 ≤ d.leadingExp := hserialized.1
      have hhigh : d.leadingExp < 16 := hserialized.2
      omega
    rw [hleft, hright]
    exact iff_of_true rfl (by omega)

end Decimal

namespace Finite64

/-! ## Values whose texts are equal -/

/-- The value nearest to 10^-5. -/
abbrev hundredThousandth : Finite64 := powerOfTen (-5) (by decide +kernel)

example : Binary64.ofText "1e-5" = .finite hundredThousandth := by decide +kernel

theorem isIntegral_iff (x : Finite64) : IsIntegral x.value ↔ ∃ n : Nat, magnitude x.rank = n := by
  rw [← abs_value]
  constructor
  · rintro ⟨n, hn⟩
    exact ⟨n.natAbs, by rw [hn, Nat.cast_natAbs, Int.cast_abs]⟩
  · rintro ⟨n, hn⟩
    rcases abs_cases x.value with ⟨habs, -⟩ | ⟨habs, -⟩
    · exact ⟨n, by rw [← habs, hn, Int.cast_natCast]⟩
    · exact ⟨-n, by rw [Int.cast_neg, Int.cast_natCast, ← hn, habs, neg_neg]⟩

/-- From 10^16 on every value is an integer. -/
theorem leadingExp_lt_of_exp_neg {x : Finite64} (hx : x.rank ≠ 0)
    (hexp : (Decimal.shortest x.rank).exp < 0) : (Decimal.shortest x.rank).leadingExp < 16 := by
  by_contra hlead
  have hlow := (Decimal.leadingExp_spec (Decimal.shortest_coeff_ne_zero x.rank_lt hx)).1
  have hpow : (10 : ℚ) ^ (16 : ℤ) ≤ 10 ^ (Decimal.shortest x.rank).leadingExp :=
    zpow_le_zpow_right₀ (by norm_num) (not_lt.1 hlead)
  have hlt := Decimal.value_lt_of_nearestRank x.rank_lt hx (Decimal.nearestRank_shortest x.rank_lt)
  have hlarge : 2 ^ 52 ≤ magnitude x.rank := by
    norm_num at hpow ⊢
    linarith
  exact absurd ((Decimal.exp_shortest_nonneg_iff x.rank_lt hx).2 (exists_natCast_eq hlarge))
    (not_le.2 hexp)

theorem text_zero_ne (neg : Bool) : (zero neg).canonicalText ≠ (zero neg).serializedText := by
  cases neg with
  | false => decide
  | true => decide

/-- The texts of a value other than zero differ in what the layouts make of its shortest decimal. -/
theorem text_eq_iff_spell_eq {x : Finite64} (hx : x.rank ≠ 0) :
    x.canonicalText = x.serializedText ↔
      (Decimal.shortest x.rank).spell .canonical = (Decimal.shortest x.rank).spell .serialized := by
  have hne : x ≠ zero true := by
    rintro rfl
    exact hx rfl
  rw [canonicalText, serializedText, String.ofList_inj, spell_eq, spell_eq, shown_canonical hne,
    shown_serialized]
  cases x.neg with
  | false => rfl
  | true => exact ⟨fun h => (List.cons.inj h).2, fun h => congrArg (List.cons '-') h⟩

/-- The texts of a value other than zero are equal behind the point from the value nearest to 10^-5
on, and wherever the canonical text has an exponent. -/
theorem texts_of_ne_zero {x : Finite64} (hzero : x.value ≠ 0) :
    (x.canonicalText = x.serializedText ↔
      (¬ IsIntegral x.value ∧ hundredThousandth.value ≤ |x.value|) ∨
        |x.value| < millionth.value ∨ sextillion.value ≤ |x.value|) ∧
    (x.canonicalText ≠ x.serializedText ↔
      (IsIntegral x.value ∧ |x.value| < sextillion.value) ∨
        (millionth.value ≤ |x.value| ∧ |x.value| < hundredThousandth.value)) := by
  have hx := rank_ne_zero hzero
  have hlast := Decimal.coeff_shortest_mod_ten x.rank_lt hx
  have hlead := leadingExp_lt_of_exp_neg hx
  have hexp := (Decimal.shortest x.rank).exp_le_leadingExp
  rw [ne_eq, text_eq_iff_spell_eq hx, Decimal.spell_eq_iff hlast, isIntegral_iff,
    ← Decimal.exp_shortest_nonneg_iff x.rank_lt hx]
  simp only [← le_leadingExp_iff hzero, ← leadingExp_lt_iff hzero]
  generalize Decimal.shortest x.rank = d at *
  constructor
  · omega
  · omega

theorem value_sextillion_pos : 0 < sextillion.value := magnitude_pos (by decide +kernel)

/-- The texts of a zero differ, as neither side of the comparison holds of it. -/
theorem texts_of_zero {x : Finite64} (hzero : x.value = 0) :
    x.canonicalText ≠ x.serializedText ∧ IsIntegral x.value ∧ |x.value| < sextillion.value := by
  refine ⟨?_, ⟨0, by rw [hzero, Int.cast_zero]⟩, ?_⟩
  · obtain ⟨neg, rank, hrank⟩ := x
    obtain rfl : rank = 0 := value_eq_zero_iff.1 hzero
    exact text_zero_ne neg
  · rw [hzero, abs_zero]
    exact value_sextillion_pos

/-- A layout denotes the shortest decimal with the sign that it shows. -/
theorem denotes_spell (layout : Decimal.Layout) (x : Finite64) :
    Denotes (x.spell layout) (withSign (x.shown layout).neg (Decimal.shortest x.rank).value) := by
  have hmagnitude := Decimal.magnitude_spell_shortest layout x.rank_lt
  rw [spell_eq]
  cases (x.shown layout).neg with
  | false => exact .unsigned hmagnitude
  | true => exact .negative hmagnitude

end Finite64

namespace Number

open Finite64

/-- A finite value makes two numbers, one by its canonical text and one by the text of the float. Both
texts are JSON numbers, denote the same rational and read back as the value; the negative zero alone
loses its sign in the canonical text. The two numbers are equal exactly for the values that are no
integers from the one nearest to 10^-5 on, for those between zero and the one nearest to 10^-6, and
from the one nearest to 10^21 on. -/
theorem two_spellings (p : Policy) (x : Finite64) :
    ∃ n m : Number p, ofBinary64 p (.finite x) = .ok n ∧ ofMachine p (.float x) = .ok m ∧
      (x ≠ .zero true →
        IsNumeral n.text.toList ∧ IsNumeral m.text.toList ∧
        (∃ q, Denotes n.text.toList q ∧ Denotes m.text.toList q) ∧
        n.toBinary64 = .finite x ∧ m.toBinary64 = .finite x) ∧
      (x = .zero true → n.text = "0" ∧ m.text = "-0.0") ∧
      (n = m ↔ n.text = m.text) ∧
      (n.text = m.text ↔
        (¬ IsIntegral x.value ∧ hundredThousandth.value ≤ |x.value|) ∨
          (0 < |x.value| ∧ |x.value| < millionth.value) ∨ sextillion.value ≤ |x.value|) ∧
      (n.text ≠ m.text ↔
        x.value = 0 ∨ (IsIntegral x.value ∧ |x.value| < sextillion.value) ∨
          (millionth.value ≤ |x.value| ∧ |x.value| < hundredThousandth.value)) := by
  refine ⟨⟨x.canonicalText⟩, ⟨x.serializedText⟩, ofBinary64_finite p x, ofText_serializedText p x,
    fun hx => ?_, ?_, by rw [mk.injEq], ?_⟩
  · have hleft := x.denotes_spell .canonical
    have hright := x.denotes_spell .serialized
    rw [shown_canonical hx] at hleft
    rw [shown_serialized] at hright
    rw [Finite64.canonicalText, serializedText, String.toList_ofList, String.toList_ofList]
    refine ⟨hleft.isNumeral, hright.isNumeral, ⟨_, hleft, hright⟩, ?_, x.ofText_serializedText⟩
    exact (x.ofText_canonicalText).trans (by rw [shown_canonical hx])
  · rintro rfl
    have hsigned : (zero true).serializedText = "-0.0" := by decide
    exact ⟨canonicalText_zero true, hsigned⟩
  · -- the search for digits does not cover zero, whose two texts are fixed
    by_cases hzero : x.value = 0
    · obtain ⟨hne, hintegral, hlt⟩ := texts_of_zero hzero
      refine ⟨iff_of_false hne ?_, iff_of_true hne (Or.inl hzero)⟩
      rintro (⟨hnot, -⟩ | ⟨hpos, -⟩ | hle)
      · exact hnot hintegral
      · exact hpos.ne' (abs_eq_zero.2 hzero)
      · exact absurd hlt (not_lt.2 hle)
    · have hpos : 0 < |x.value| := abs_pos.2 hzero
      rw [and_iff_right hpos, or_iff_right hzero]
      exact texts_of_ne_zero hzero

/-- The two numbers of a tenth, and those of the negative zero. -/
theorem two_spellings_tenth :
    (⟨false, 0x3FB999999999999A, by decide⟩ : Finite64) ≠ .zero true ∧
    (∃ n m : Number .safe,
      ofBinary64 .safe (.finite ⟨false, 0x3FB999999999999A, by decide⟩) = .ok n ∧
      ofMachine .safe (.float ⟨false, 0x3FB999999999999A, by decide⟩) = .ok m ∧
      IsNumeral n.text.toList ∧ IsNumeral m.text.toList ∧
      (∃ q, Denotes n.text.toList q ∧ Denotes m.text.toList q) ∧ n.text = "0.1") ∧
    ∃ n m : Number .safe, ofBinary64 .safe (.finite (.zero true)) = .ok n ∧
      ofMachine .safe (.float (.zero true)) = .ok m ∧ n.text = "0" ∧ m.text = "-0.0" := by
  have hne : (⟨false, 0x3FB999999999999A, by decide⟩ : Finite64) ≠ .zero true := by decide
  obtain ⟨n, m, hn, hm, hread, -⟩ := two_spellings .safe ⟨false, 0x3FB999999999999A, by decide⟩
  obtain ⟨n', m', hn', hm', -, hzero, -⟩ := two_spellings .safe (.zero true)
  obtain ⟨hnumeral, hnumeral', hdenotes, -⟩ := hread hne
  refine ⟨hne, ⟨n, m, hn, hm, hnumeral, hnumeral', hdenotes, ?_⟩, n', m', hn', hm', hzero rfl⟩
  rw [ofBinary64_finite, Except.ok.injEq] at hn
  rw [← hn]
  decide +kernel

end Number

end JsonTree
