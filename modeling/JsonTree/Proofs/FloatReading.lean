import JsonTree.Number
import JsonTree.Proofs.CanonicalText
import JsonTree.Proofs.FiniteRange
import JsonTree.Proofs.FloatSyntax

/-!
# Reading any text as a float

Every text has a binary64 reading. A text of digits reads as the value nearest to the rational that
it denotes, however many digits it has and however large its exponent is; a word reads as an infinity
or as no number; and any other text reads as no number.

- `Decimal.toBinary64_eq_zero_iff`, `Decimal.abs_sub_le_of_subnormal`: what small decimals round to.
- `Binary64.ofText_of_denotes`: a text of digits is read as a decimal of its rational.
- `Binary64.ofText_eq_nan_iff`: the texts that read as no number.
- `Binary64.ofText_nearest`: the reading of any text.
-/

namespace JsonTree

open FloatSyntax

/-! ## Small values -/

namespace Binary64

theorem cast_unitsPerOne : (unitsPerOne : ℚ) = 2 ^ 1074 := by
  rw [unitsPerOne_eq rfl, Nat.cast_pow, Nat.cast_ofNat]

theorem half_unit : (1 : ℚ) / 2 ^ 1075 = 1 / 2 / unitsPerOne := by
  rw [div_div, cast_unitsPerOne, ← pow_succ']

end Binary64

/-- Every finite value is a whole number of units. -/
theorem Finite64.exists_eq_div (x : Finite64) : ∃ k : ℤ, x.value = k / 2 ^ 1074 := by
  cases hneg : x.neg with
  | false =>
    refine ⟨Binary64.units x.rank, ?_⟩
    rw [value_eq, hneg, Binary64.magnitude, Binary64.cast_unitsPerOne, withSign_false,
      Int.cast_natCast]
  | true =>
    refine ⟨-Binary64.units x.rank, ?_⟩
    rw [value_eq, hneg, Binary64.magnitude, Binary64.cast_unitsPerOne, withSign_true, Int.cast_neg,
      Int.cast_natCast, neg_div]

namespace Decimal

open Binary64

variable {d : Decimal} {neg : Bool}

/-- A decimal rounds to zero up to half a unit. -/
theorem toBinary64_eq_zero_iff :
    d.toBinary64 neg = .finite (.zero neg) ↔ d.value ≤ 1 / 2 ^ 1075 := by
  have hone := cast_unitsPerOne_pos
  obtain ⟨rank, hrank, -⟩ := nearestRank_spec d
  rw [toBinary64_of_isNearest neg hrank, half_unit, le_div_iff₀ hone, ← hrank.eq_zero_iff]
  constructor
  · intro h
    exact (ofRank_eq_finite h).2.symm
  · rintro rfl
    rfl

/-- Below 2^-1022 a decimal is rounded by half a unit at most. -/
theorem abs_sub_le_of_subnormal {x : Finite64} (h : d.toBinary64 neg = .finite x)
    (hd : d.value ≤ 1 / 2 ^ 1022) : |withSign neg d.value - x.value| ≤ 1 / 2 ^ 1075 := by
  have hone := cast_unitsPerOne_pos
  have hnormal : (1 : ℚ) / 2 ^ 1022 * unitsPerOne = 2 ^ 52 := by
    rw [cast_unitsPerOne, div_mul_eq_mul_div, one_mul,
      div_eq_iff (pow_ne_zero _ two_ne_zero), ← pow_add]
  obtain ⟨rfl, hnearest⟩ := toBinary64_eq_finite h
  have hle : d.value * unitsPerOne ≤ 2 ^ 52 :=
    hnormal ▸ mul_le_mul_of_nonneg_right hd hone.le
  rw [Finite64.value_eq, abs_withSign_sub, Finite64.abs_sub_eq, half_unit,
    div_le_div_iff_of_pos_right hone]
  exact hnearest.abs_sub_le_half hle (mul_nonneg d.value_nonneg hone.le)

end Decimal

/-! ## The reading of a text -/

namespace Binary64

variable {text : String} {neg : Bool} {q : ℚ}

/-- A text of digits is read as a decimal of the rational that it denotes. -/
theorem ofText_of_denotes (h : Denotes text.toList neg q) :
    ∃ d : Decimal, ofText text = d.toBinary64 neg ∧ q = withSign neg d.value := by
  obtain ⟨d, hread, hvalue⟩ := readFloatText_decimal_iff.2 h
  refine ⟨d, ?_, hvalue.symm⟩
  rw [ofText, hread]
  rfl

theorem ofText_of_spellsInfinity (h : SpellsInfinity text.toList neg) :
    ofText text = .infinity neg := by
  rw [ofText, readFloatText_infinity_iff.2 h]
  rfl

/-- What is not in the float syntax, and the word for it, read as no number. -/
theorem ofText_eq_nan_iff :
    ofText text = .nan ↔ ¬ IsFloatText text.toList ∨ SpellsNan text.toList := by
  rw [← readFloatText_eq_none_iff, ← readFloatText_nan_iff, ofText]
  cases hread : readFloatText? text.toList with
  | none => exact iff_of_true rfl (Or.inl rfl)
  | some t =>
    cases t with
    | decimal neg d => exact iff_of_false (ofRank_ne_nan neg _) (by simp)
    | infinity neg =>
      refine iff_of_false (fun h => ?_) (by simp)
      cases h
    | nan => exact iff_of_true rfl (Or.inr rfl)

/-- A text reads as no number if it is not in the float syntax or is the word for it, and as the
infinity of its sign if it is a word for one. Any other text denotes one rational `q` and reads as
what `q` rounds to: the closest finite value, of two the even one, with the sign of the text also on
a zero; from 2^1024 - 2^970 on an infinity, and up to 2^-1075 a zero. Subnormal values are whole
multiples of 2^-1074, and are off by half of that at most. The reading is monotone in the
rational. -/
theorem ofText_nearest (text : String) :
    (∀ p, (⟨text⟩ : Number p).toBinary64 = ofText text) ∧
    (ofText text = .nan ↔ ¬ IsFloatText text.toList ∨ SpellsNan text.toList) ∧
    (∀ neg, SpellsInfinity text.toList neg → ofText text = .infinity neg) ∧
    ∀ neg q, Denotes text.toList neg q →
      (∀ other r, Denotes text.toList other r → neg = other ∧ q = r) ∧
      (ofText text).Rounds neg q ∧
      (ofText text = .infinity neg ↔ 2 ^ 1024 - 2 ^ 970 ≤ |q|) ∧
      (ofText text = .finite (.zero neg) ↔ |q| ≤ 1 / 2 ^ 1075) ∧
      (∀ x, ofText text = .finite x → |q| ≤ 1 / 2 ^ 1022 →
        (∃ k : ℤ, x.value = k / 2 ^ 1074) ∧ |q - x.value| ≤ 1 / 2 ^ 1075) ∧
      ∀ other neg' q', Denotes (String.toList other) neg' q' → q ≤ q' →
        Le (ofText text) (ofText other) := by
  refine ⟨fun _ => rfl, ofText_eq_nan_iff, fun neg => ofText_of_spellsInfinity, ?_⟩
  intro neg q hq
  obtain ⟨d, htext, rfl⟩ := ofText_of_denotes hq
  have hrounds := d.rounds_toBinary64 neg
  rw [htext, abs_withSign neg d.value_nonneg]
  refine ⟨fun other r => hq.unique, hrounds, ?_, Decimal.toBinary64_eq_zero_iff, ?_, ?_⟩
  · rw [← abs_withSign neg d.value_nonneg]
    refine ⟨fun hinfinity => ?_, hrounds.infinite⟩
    -- within the range the reading is finite
    by_contra hrange
    obtain ⟨x, hx, -⟩ := hrounds.finite (not_le.1 hrange)
    cases hinfinity.symm.trans hx
  · exact fun x hx hsmall => ⟨x.exists_eq_div, Decimal.abs_sub_le_of_subnormal hx hsmall⟩
  · intro other neg' q' hq' hle
    obtain ⟨e, hother, rfl⟩ := ofText_of_denotes hq'
    rw [hother]
    exact Decimal.toBinary64_mono hle

theorem denotes_natCast (n : Nat) : Denotes (Nat.toDigits 10 n) false n := by
  refine .of_eq .absent (.integral (digits_toDigits n)) .absent ?_ ?_
  · rw [List.append_nil, List.nil_append]
  · simp [Decimal.value]

/-- The integer behind 2^53, which lies half way between two values; a zero with a minus and a large
exponent; a word; and the bound of the finite range. -/
theorem ofText_nearest_at_ties :
    (Denotes "+9007199254740993.".toList false 9007199254740993 ∧
        (ofText "+9007199254740993.").Rounds false 9007199254740993) ∧
      (Denotes "-.000E99999999999999999999".toList true 0 ∧
        ofText "-.000E99999999999999999999" = .finite (.zero true) ∧
        |(0 : ℚ) - (Finite64.zero true).value| ≤ 1 / 2 ^ 1075 ∧
        Le (ofText "-.000E99999999999999999999") (ofText "+9007199254740993.")) ∧
      (SpellsInfinity "-iNFinitY".toList true ∧ ofText "-iNFinitY" = .infinity true) ∧
      (Denotes (Nat.toDigits 10 Number.overflowInteger) false Number.overflowInteger ∧
        ofText (String.ofList (Nat.toDigits 10 Number.overflowInteger)) = .infinity false) := by
  have hinteger : Nat.ofDigitChars 10 ("9007199254740993".toList ++ []) 0 = 9007199254740993 := by
    decide
  have hnothing : Nat.ofDigitChars 10 ([] ++ "000".toList) 0 = 0 := by decide
  have htie : Denotes "+9007199254740993.".toList false 9007199254740993 := by
    refine .of_eq .plus (.pointed (List.all_eq_true.1 (by decide : "9007199254740993".toList.all _))
      (List.forall_mem_nil _) (by decide)) .absent (by decide) ?_
    rw [hinteger]
    simp [Decimal.value]
  have hzero : Denotes "-.000E99999999999999999999".toList true 0 := by
    refine .of_eq .minus (.pointed (List.forall_mem_nil _)
      (List.all_eq_true.1 (by decide : "000".toList.all _)) (by decide))
      (.unsigned (Or.inr rfl) (digits_of_all (by decide)
        (by decide : "99999999999999999999".toList.all _))) (by decide) ?_
    rw [hnothing, Decimal.value, Nat.cast_zero, zero_mul, withSign_zero]
  have hword : SpellsInfinity "-iNFinitY".toList true :=
    .mk .minus (Or.inr ((map_toLower_eq_iff infinity_isLower).1 (by decide)))
  have hbound := denotes_natCast Number.overflowInteger
  have hsmall : ∀ k : Nat, |(0 : ℚ)| ≤ 1 / 2 ^ k := fun k => by rw [abs_zero]; positivity
  obtain ⟨-, -, -, hread⟩ := ofText_nearest "-.000E99999999999999999999"
  obtain ⟨-, -, -, hiff, hsubnormal, hmono⟩ := hread true 0 hzero
  have hvalue := hiff.2 (hsmall 1075)
  refine ⟨⟨htie, ((ofText_nearest _).2.2.2 false _ htie).2.1⟩,
    ⟨hzero, hvalue, (hsubnormal _ hvalue (hsmall 1022)).2, hmono _ false _ htie (by norm_num)⟩,
    ⟨hword, (ofText_nearest _).2.2.1 true hword⟩, hbound, ?_⟩
  obtain ⟨-, -, -, hread⟩ := ofText_nearest (String.ofList (Nat.toDigits 10 Number.overflowInteger))
  rw [String.toList_ofList] at hread
  refine (hread false Number.overflowInteger hbound).2.2.1.2 ?_
  rw [abs_of_nonneg (Nat.cast_nonneg _)]
  exact Number.cast_overflowInteger.ge

end Binary64

end JsonTree
