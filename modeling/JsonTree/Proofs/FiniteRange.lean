import JsonTree.Proofs.RefusalPosition
import JsonTree.Proofs.SafeText

/-!
# The texts of safe numbers

A text is kept as a safe number if it is a JSON number whose rational rounds to a finite value. The
bound of these rationals lies half way between the largest finite value and 2^1024, and is itself
refused, since the half goes to the even neighbour. No bound is put on the digits or the exponent:
only the rational counts.

- `Numeral.check_of_denotes`, `Numeral.check_of_not_isNumeral`: the verdict on a JSON number, and on
  any other text.
- `Number.ofText_safe_eq_ok_iff`, `Number.ofText_safe_eq_error_iff`: what is stored.
- `Number.safe_texts`: the safe texts, exactly.
-/

namespace JsonTree

open IsNumeral Binary64

namespace Numeral

variable {text : String}

/-- The rules for safe numbers are the range of the rational, where the text denotes one. -/
theorem check_of_denotes {q : ℚ} (h : Denotes text.toList q) :
    check text = if |q| < overflowBound then .ok () else .error (.outOfRange text) := by
  have hvalidate : validate text = .ok () := validate_of_isNumeral h.isNumeral
  have hfinite := h.ofText_finite_iff
  rw [String.ofList_toList] at hfinite
  unfold check
  rw [hvalidate]
  show checkRange text = _
  unfold checkRange
  split
  · rename_i x hx
    rw [if_pos (hfinite.1 ⟨x, hx⟩)]
  · rename_i w hw
    rw [if_neg]
    rw [← hfinite]
    rintro ⟨x, hx⟩
    rw [hx] at hw
    cases hw

/-- A text that is no JSON number is refused by the scanner, and not for its range. -/
theorem check_of_not_isNumeral (h : ¬ IsNumeral text.toList) :
    ∃ e, validate text = .error e ∧ check text = .error e ∧ ∀ literal, e ≠ .outOfRange literal := by
  cases hvalidate : validate text with
  | ok u => exact absurd (validate_eq_ok_iff.1 hvalidate) h
  | error e =>
    refine ⟨e, rfl, ?_, ?_⟩
    · unfold check
      rw [hvalidate]
      rfl
    · rintro literal rfl
      cases refused_of_validate hvalidate

/-- A text is accepted exactly if it denotes a rational within the bound. -/
theorem check_eq_ok_iff_denotes :
    check text = .ok () ↔ ∃ q, Denotes text.toList q ∧ |q| < overflowBound := by
  constructor
  · intro h
    obtain ⟨q, hq⟩ := exists_denotes (validate_eq_ok_iff.1 ((check_eq_ok_iff text).1 h).1)
    refine ⟨q, hq, ?_⟩
    rw [check_of_denotes hq] at h
    by_contra hrange
    rw [if_neg hrange] at h
    cases h
  · rintro ⟨q, hq, hrange⟩
    rw [check_of_denotes hq, if_pos hrange]

end Numeral

/-! ## What is stored -/

namespace Number

/-- A safe number is a text that was accepted, kept as it is. -/
theorem ofText_safe_eq (text : String) :
    ofText .safe text = (Numeral.check text).map fun _ => ⟨text⟩ := by
  have hcheck : Policy.checkText .safe text = Numeral.check text := rfl
  unfold ofText
  rw [hcheck]
  cases Numeral.check text with
  | ok u => rfl
  | error e => rfl

/-- An accepted text is stored unchanged. -/
theorem ofText_safe_eq_ok_iff {text : String} {n : Number .safe} :
    ofText .safe text = .ok n ↔ Numeral.check text = .ok () ∧ n.text = text := by
  rw [ofText_safe_eq]
  cases Numeral.check text with
  | error e => exact iff_of_false nofun fun h => nomatch h.1
  | ok u =>
    constructor
    · rintro ⟨⟩
      exact ⟨rfl, rfl⟩
    · rintro ⟨-, rfl⟩
      rfl

/-- A text is refused with the cause that its check gives. -/
theorem ofText_safe_eq_error_iff {text : String} {e : NumberError} :
    ofText .safe text = .error e ↔ Numeral.check text = .error e := by
  rw [ofText_safe_eq]
  cases Numeral.check text with
  | error e' =>
    constructor
    · rintro ⟨⟩
      rfl
    · rintro ⟨⟩
      rfl
  | ok u => exact iff_of_false nofun nofun

/-! ## The safe texts -/

/-- The texts that are kept as safe numbers, whatever their length. A JSON number denotes exactly
one rational, and it is accepted if the magnitude of this rational lies below 2^1024 - 2^970, and
else refused as out of range. Any other text is refused as the scanner refuses it, and never for its
range. An accepted text is stored as it is, whether it is new or a number taken over from documents
without the promise. -/
theorem safe_texts (text : String) :
    (IsNumeral text.toList → ∃! q, Denotes text.toList q) ∧
      (Numeral.check text = .ok () ↔ ∃ q, Denotes text.toList q ∧ |q| < 2 ^ 1024 - 2 ^ 970) ∧
      (∀ q, Denotes text.toList q → 2 ^ 1024 - 2 ^ 970 ≤ |q| →
        Numeral.check text = .error (.outOfRange text)) ∧
      (¬ IsNumeral text.toList → ∃ e, Numeral.validate text = .error e ∧
        Numeral.check text = .error e ∧ ∀ literal, e ≠ .outOfRange literal) ∧
      (∀ n : Number .safe,
        (ofText .safe text = .ok n ↔ Numeral.check text = .ok () ∧ n.text = text) ∧
        ((⟨text⟩ : Number .unchecked).recheck .safe = .ok n ↔
          Numeral.check text = .ok () ∧ n.text = text)) ∧
      (∀ e,
        (ofText .safe text = .error e ↔ Numeral.check text = .error e) ∧
        ((⟨text⟩ : Number .unchecked).recheck .safe = .error e ↔
          Numeral.check text = .error e)) := by
  refine ⟨?_, Numeral.check_eq_ok_iff_denotes, ?_, Numeral.check_of_not_isNumeral, ?_, ?_⟩
  · intro h
    obtain ⟨q, hq⟩ := exists_denotes h
    exact ⟨q, hq, fun r hr => hr.unique hq⟩
  · intro q hq hrange
    rw [Numeral.check_of_denotes hq]
    exact if_neg (not_lt.2 hrange)
  · exact fun n => ⟨ofText_safe_eq_ok_iff, ofText_safe_eq_ok_iff⟩
  · exact fun e => ⟨ofText_safe_eq_error_iff, ofText_safe_eq_error_iff⟩

/-- The bound itself, as an integer. -/
def overflowInteger : Nat := 2 ^ 1024 - 2 ^ 970

theorem cast_two_pow_sub {j k : Nat} (h : j ≤ k) : ((2 ^ k - 2 ^ j : Nat) : ℚ) = 2 ^ k - 2 ^ j := by
  rw [Nat.cast_sub (Nat.pow_le_pow_right two_pos h)]
  push_cast
  rfl

/-- The bound as an integer. -/
theorem cast_overflowInteger : (overflowInteger : ℚ) = overflowBound := cast_two_pow_sub (by decide)

theorem cast_overflowInteger_pred : ((overflowInteger - 1 : Nat) : ℚ) = overflowInteger - 1 := by
  have hpos : 1 ≤ overflowInteger := by
    have hlt : ((2 ^ 128 : Nat) : ℚ) < overflowInteger := by
      rw [cast_overflowInteger]
      exact_mod_cast two_pow_lt_overflowBound
    exact (Nat.one_le_two_pow).trans (Nat.cast_lt.1 hlt).le
  rw [Nat.cast_sub hpos, Nat.cast_one]

theorem magnitude_natCast (n : Nat) : Magnitude (Nat.toDigits 10 n) n := by
  have h := magnitude_toDigits n
  simpa [Decimal.value] using h

/-- A zero is zero with any exponent. -/
theorem denotes_zero_exponent {digits : List Char} (h : Digits digits) :
    Denotes ('0' :: 'e' :: digits) 0 := by
  refine .unsigned (.of_eq .zero .absent (.unsigned (Or.inl rfl) h) rfl ?_)
  have hzero : Nat.ofDigitChars 10 (['0'] ++ List.tail []) 0 = 0 := rfl
  rw [Decimal.value, hzero, Nat.cast_zero, zero_mul]

/-- The digits of the bound are refused, the integer before it is accepted with a minus, and so is a
zero with an exponent of any size; a plus makes no JSON number. -/
theorem safe_texts_at_bound :
    (IsNumeral (Nat.toDigits 10 overflowInteger) ∧
        (∃! q, Denotes (Nat.toDigits 10 overflowInteger) q) ∧
        Denotes (Nat.toDigits 10 overflowInteger) overflowInteger ∧
        2 ^ 1024 - 2 ^ 970 ≤ |(overflowInteger : ℚ)| ∧
        Numeral.check (String.ofList (Nat.toDigits 10 overflowInteger))
          = .error (.outOfRange (String.ofList (Nat.toDigits 10 overflowInteger)))) ∧
      Numeral.check (String.ofList ('-' :: Nat.toDigits 10 (overflowInteger - 1))) = .ok () ∧
      Numeral.check "0e99999999999999999999" = .ok () ∧
      (¬ IsNumeral "+1".toList ∧ ∃ e, Numeral.validate "+1" = .error e ∧
        Numeral.check "+1" = .error e ∧ ∀ literal, e ≠ .outOfRange literal) := by
  have hdenotes : Denotes (Nat.toDigits 10 overflowInteger) overflowInteger :=
    .unsigned (magnitude_natCast overflowInteger)
  have hnonneg : (0 : ℚ) ≤ overflowInteger := Nat.cast_nonneg overflowInteger
  refine ⟨?_, ?_, ?_, ?_⟩
  · have hrange : (2 ^ 1024 - 2 ^ 970 : ℚ) ≤ |(overflowInteger : ℚ)| := by
      rw [abs_of_nonneg hnonneg]
      exact cast_overflowInteger.ge
    obtain ⟨hunique, -, hrefused, -⟩ := safe_texts (String.ofList (Nat.toDigits 10 overflowInteger))
    rw [String.toList_ofList] at hunique hrefused
    exact ⟨hdenotes.isNumeral, hunique hdenotes.isNumeral, hdenotes, hrange,
      hrefused overflowInteger hdenotes hrange⟩
  · refine (safe_texts _).2.1.2 ⟨-((overflowInteger - 1 : Nat) : ℚ), ?_, ?_⟩
    · rw [String.toList_ofList]
      exact .negative (magnitude_natCast _)
    · rw [abs_neg, abs_of_nonneg (Nat.cast_nonneg _), cast_overflowInteger_pred,
        cast_overflowInteger]
      exact sub_one_lt overflowBound
  · refine (safe_texts _).2.1.2 ⟨0, ?_, ?_⟩
    · exact denotes_zero_exponent ⟨by decide, List.all_eq_true.1 (by decide)⟩
    · rw [abs_zero]
      exact (pow_pos two_pos 128).trans two_pow_lt_overflowBound
  · have hplus : ¬ IsNumeral "+1".toList := by
      rw [← Numeral.validate_eq_ok_iff]
      decide +kernel
    exact ⟨hplus, (safe_texts "+1").2.2.2.1 hplus⟩

end Number

end JsonTree
