import JsonTree.Decimal.Layout
import JsonTree.Proofs.NumeralValue

/-!
# Spelled decimals denote themselves

Whatever the layout, and on whichever side of its thresholds, the spelling of a decimal is a JSON
number and denotes the value of the decimal.

- `Decimal.magnitude_spell`: the spelling denotes the decimal's value.
- `Finite64.isNumeral_spell`: every spelled binary64 value is a JSON number.
- `Finite64.ofText_spell`: it reads back as the value it was made of, up to the sign of a zero.
-/

namespace JsonTree

open IsNumeral

/-- A text and a value that are given in another form make a magnitude. -/
theorem IsNumeral.Magnitude.of_eq {whole fraction exponent cs : List Char} {e : Int} {q : ℚ}
    (isWhole : Whole whole) (isFraction : Fraction fraction)
    (isExponent : ExponentValue exponent e) (hcs : cs = whole ++ fraction ++ exponent)
    (hq : q = Decimal.value
      ⟨Nat.ofDigitChars 10 (whole ++ fraction.tail) 0, e - fraction.tail.length⟩) :
    Magnitude cs q := by
  subst hcs hq
  exact .mk isWhole isFraction isExponent

/-! ## Digits -/

/-- The digits of a number are digits, and there is at least one. -/
theorem digits_toDigits (n : Nat) : Digits (Nat.toDigits 10 n) :=
  ⟨Nat.toDigits_ne_nil, fun _ hc => Nat.isDigit_of_mem_toDigits (by decide) (by decide) hc⟩

theorem isDigit_of_mem_zeros {k : Nat} {c : Char} (h : c ∈ List.replicate k '0') : c.isDigit := by
  rw [List.eq_of_mem_replicate h]
  rfl

namespace Decimal

/-- A decimal has a first digit, which stands before the point of a scientific text. -/
theorem digits_eq_cons (d : Decimal) :
    ∃ c cs, d.digits = c :: cs ∧ c.isDigit ∧ (∀ x ∈ cs, x.isDigit) := by
  obtain ⟨hne, hdigits⟩ : Digits d.digits := digits_toDigits d.coeff
  cases h : d.digits with
  | nil => exact absurd h hne
  | cons c cs =>
    rw [h, List.forall_mem_cons] at hdigits
    exact ⟨c, cs, rfl, hdigits.1, hdigits.2⟩

/-- The digits of a positive number do not begin with a zero. -/
theorem head_toDigits_ne_zero {n : Nat} (hn : n ≠ 0) :
    ∀ c cs, Nat.toDigits 10 n = c :: cs → c ≠ '0' := by
  induction n using Nat.strongRecOn with
  | _ n ih =>
    intro c cs h
    rw [Nat.toDigits_eq_if (by decide)] at h
    split at h
    · rename_i hlt
      have hdigit : ∀ m < 10, m ≠ 0 → m.digitChar ≠ '0' := by decide
      injection h with hc
      exact hc ▸ hdigit n hlt hn
    · rename_i hge
      cases hdiv : Nat.toDigits 10 (n / 10) with
      | nil => exact absurd hdiv Nat.toDigits_ne_nil
      | cons a as =>
        rw [hdiv, List.cons_append] at h
        injection h with hc
        exact hc ▸ ih (n / 10) (by omega) (by omega) a as hdiv

/-- The digits of a coefficient have no leading zero, except for zero itself. -/
theorem whole_digits (d : Decimal) : Whole d.digits := by
  by_cases hcoeff : d.coeff = 0
  · rw [digits, hcoeff]
    exact .zero
  · obtain ⟨c, cs, h, hc, hcs⟩ := d.digits_eq_cons
    rw [h]
    exact .positive hc (head_toDigits_ne_zero hcoeff c cs h) hcs

/-- Reading the digits gives the coefficient back. -/
theorem ofDigitChars_digits (d : Decimal) : Nat.ofDigitChars 10 d.digits 0 = d.coeff :=
  Nat.ofDigitChars_ten_toDigits

/-! ## The layouts -/

variable {d : Decimal}

/-- A written exponent is one of the grammar, with its own value. -/
theorem exponentValue_spellExponent (e : Int) : ExponentValue (spellExponent e) e := by
  have hdigits := digits_toDigits e.natAbs
  have hvalue : (Nat.ofDigitChars 10 (Nat.toDigits 10 e.natAbs) 0 : Int) = e.natAbs := by
    rw [Nat.ofDigitChars_ten_toDigits]
  unfold spellExponent
  by_cases h : e < 0
  · have he : -(Nat.ofDigitChars 10 (Nat.toDigits 10 e.natAbs) 0 : Int) = e := by omega
    have hminus := ExponentValue.minus (Or.inl rfl : 'e' = 'e' ∨ 'e' = 'E') hdigits
    rw [he] at hminus
    rwa [if_pos h]
  · have he : (Nat.ofDigitChars 10 (Nat.toDigits 10 e.natAbs) 0 : Int) = e := by omega
    have hplus := ExponentValue.plus (Or.inl rfl : 'e' = 'e' ∨ 'e' = 'E') hdigits
    rw [he] at hplus
    rwa [if_neg h]

/-- A scientific text keeps the value: the point that is moved into the digits is made up for by the
exponent. -/
theorem magnitude_spellScientific (d : Decimal) : Magnitude d.spellScientific d.value := by
  obtain ⟨c, cs, hdigits, hc, hcs⟩ := d.digits_eq_cons
  have hcoeff := d.ofDigitChars_digits
  have hwhole : Whole [c] := by
    by_cases hzero : c = '0'
    · exact hzero ▸ .zero
    · exact .positive hc hzero (by simp)
  have hexp := exponentValue_spellExponent d.leadingExp
  rw [spellScientific, hdigits]
  rw [hdigits] at hcoeff
  -- a single digit has no point behind it
  cases cs with
  | nil =>
    have hlead : d.leadingExp = d.exp := by
      rw [leadingExp, hdigits]
      simp
    refine .of_eq hwhole .absent hexp rfl ?_
    simp only [List.append_nil, List.tail_nil, List.length_nil]
    rw [hcoeff, hlead]
    simp
  | cons c' cs =>
    have hlead : d.leadingExp = d.exp + (c' :: cs).length := by
      rw [leadingExp, hdigits, List.length_cons]
      omega
    refine .of_eq hwhole (.present ⟨List.cons_ne_nil c' cs, hcs⟩) hexp rfl ?_
    simp only [List.tail_cons, List.singleton_append]
    rw [hcoeff, hlead, Int.add_sub_cancel]

/-! The parts of the positional layouts. -/

/-- The digits may be a lone zero, if no further zeros are written behind it. -/
theorem whole_digits_zeros (hcoeff : d.coeff ≠ 0 ∨ d.exp = 0) :
    Whole (d.digits ++ List.replicate d.exp.toNat '0') := by
  rcases hcoeff with hne | hzero
  · obtain ⟨c, cs, hdigits, hc, hcs⟩ := d.digits_eq_cons
    rw [hdigits]
    refine .positive hc (head_toDigits_ne_zero hne c cs hdigits) ?_
    intro x hx
    rcases List.mem_append.1 hx with hx | hx
    · exact hcs x hx
    · exact isDigit_of_mem_zeros hx
  · rw [hzero]
    simpa using d.whole_digits

/-- The digits before the point have no leading zero either. -/
theorem whole_take_digits (hcoeff : d.coeff ≠ 0) (k : Nat) : Whole (d.digits.take (k + 1)) := by
  obtain ⟨c, cs, hdigits, hc, hcs⟩ := d.digits_eq_cons
  rw [hdigits, List.take_succ_cons]
  exact .positive hc (head_toDigits_ne_zero hcoeff c cs hdigits)
    fun x hx => hcs x (List.mem_of_mem_take hx)

theorem digits_drop_digits {k : Nat} (h : k < d.digits.length) : Digits (d.digits.drop k) := by
  constructor
  · intro hnil
    have := List.drop_eq_nil_iff.1 hnil
    omega
  · intro x hx
    exact d.whole_digits.digits.2 x (List.mem_of_mem_drop hx)

theorem digits_zeros_digits (d : Decimal) (k : Nat) :
    Digits (List.replicate k '0' ++ d.digits) := by
  constructor
  · intro hnil
    exact d.whole_digits.digits.1 (List.append_eq_nil_iff.1 hnil).2
  · intro x hx
    rcases List.mem_append.1 hx with hx | hx
    · exact isDigit_of_mem_zeros hx
    · exact d.whole_digits.digits.2 x hx

/-- Where the digits reach the point, zeros are written out up to it. -/
theorem magnitude_spellPlain_integral (pointed : Bool) (hcoeff : d.coeff ≠ 0 ∨ d.exp = 0)
    (hexp : 0 ≤ d.exp) :
    Magnitude (d.digits ++ List.replicate d.exp.toNat '0' ++ if pointed then ['.', '0'] else [])
      d.value := by
  have hwhole := whole_digits_zeros hcoeff
  have hvalue : Nat.ofDigitChars 10 (d.digits ++ List.replicate d.exp.toNat '0') 0
      = 10 ^ d.exp.toNat * d.coeff := by
    rw [Nat.ofDigitChars_append, d.ofDigitChars_digits, Nat.ofDigitChars_replicate_zero]
  have hself : value ⟨10 ^ d.exp.toNat * d.coeff, 0⟩ = d.value := by
    rw [value_mul_pow, Int.zero_add, Int.toNat_of_nonneg hexp]
  cases pointed with
  | false =>
    refine .of_eq hwhole .absent .absent (by simp) ?_
    simp only [List.append_nil, List.tail_nil, List.length_nil]
    rw [hvalue]
    exact hself.symm
  | true =>
    -- the zero behind the point multiplies by ten, and its place divides by ten again
    refine .of_eq hwhole (.present digits_zero) .absent (by simp) ?_
    have hpoint : Nat.ofDigitChars 10 (d.digits ++ List.replicate d.exp.toNat '0' ++ ['0']) 0
        = 10 ^ 1 * (10 ^ d.exp.toNat * d.coeff) := by
      rw [Nat.ofDigitChars_append, hvalue]
      rfl
    show d.value = value
      ⟨Nat.ofDigitChars 10 (d.digits ++ List.replicate d.exp.toNat '0' ++ ['0']) 0, -1⟩
    rw [hpoint, value_mul_pow]
    exact hself.symm

/-- Where the point stands among the digits, it parts them. -/
theorem magnitude_spellPlain_mixed (hcoeff : d.coeff ≠ 0) (hexp : d.exp < 0)
    (hlead : 0 ≤ d.leadingExp) :
    Magnitude (d.digits.take (d.leadingExp.toNat + 1) ++
      '.' :: d.digits.drop (d.leadingExp.toNat + 1)) d.value := by
  have hlen : d.leadingExp = d.exp + d.digits.length - 1 := rfl
  have hwhole := whole_take_digits hcoeff d.leadingExp.toNat
  have hfraction : Digits (d.digits.drop (d.leadingExp.toNat + 1)) := digits_drop_digits (by omega)
  refine .of_eq hwhole (.present hfraction) .absent (List.append_nil _).symm ?_
  rw [List.tail_cons, List.take_append_drop, d.ofDigitChars_digits, List.length_drop]
  have he : (0 : Int) - (d.digits.length - (d.leadingExp.toNat + 1) : Nat) = d.exp := by omega
  rw [he]

/-- Where the digits all stand behind the point, zeros are written out from it. -/
theorem magnitude_spellPlain_fractional (hlead : d.leadingExp < 0) :
    Magnitude ('0' :: '.' :: List.replicate (-d.leadingExp - 1).toNat '0' ++ d.digits)
      d.value := by
  have hlen : d.leadingExp = d.exp + d.digits.length - 1 := rfl
  have hfraction := d.digits_zeros_digits (-d.leadingExp - 1).toNat
  refine .of_eq .zero (.present hfraction) .absent (by simp) ?_
  -- zeros in front of the digits do not count
  have hvalue : Nat.ofDigitChars 10
      ('0' :: (List.replicate (-d.leadingExp - 1).toNat '0' ++ d.digits)) 0 = d.coeff := by
    rw [Nat.ofDigitChars_cons, Nat.ofDigitChars_append, Nat.ofDigitChars_replicate_zero]
    exact d.ofDigitChars_digits
  have he : (0 : Int) - (List.replicate (-d.leadingExp - 1).toNat '0' ++ d.digits).length
      = d.exp := by
    rw [List.length_append, List.length_replicate]
    omega
  rw [List.tail_cons, List.singleton_append, hvalue, he]

/-- A plain text keeps the value, wherever the point falls. -/
theorem magnitude_spellPlain (pointed : Bool) (hcoeff : d.coeff ≠ 0 ∨ d.exp = 0) :
    Magnitude (d.spellPlain pointed) d.value := by
  unfold spellPlain
  split
  · rename_i hexp
    exact magnitude_spellPlain_integral pointed hcoeff hexp
  · rename_i hexp
    split
    · rename_i hlead
      exact magnitude_spellPlain_mixed (hcoeff.resolve_right (by omega)) (by omega) hlead
    · rename_i hlead
      exact magnitude_spellPlain_fractional (by omega)

/-- The spelling of a decimal denotes its value, whatever the layout. -/
theorem magnitude_spell (layout : Layout) (hcoeff : d.coeff ≠ 0 ∨ d.exp = 0) :
    Magnitude (d.spell layout) d.value := by
  unfold spell
  split
  · exact magnitude_spellPlain layout.pointed hcoeff
  · exact d.magnitude_spellScientific

/-- The shortest decimal keeps its value in every layout. -/
theorem magnitude_spell_shortest (layout : Layout) {rank : Nat}
    (h : rank < Binary64.infinityRank) :
    Magnitude ((shortest rank).spell layout) (shortest rank).value := by
  refine magnitude_spell layout ?_
  by_cases hrank : rank = 0
  · right
    rw [hrank, shortest_zero]
  · exact Or.inl (shortest_coeff_ne_zero h hrank)

end Decimal

/-! ## Binary64 values -/

namespace Finite64

/-- The value that a layout shows: without the sign of a zero, if the layout leaves it out. -/
def shown (layout : Decimal.Layout) (x : Finite64) : Finite64 :=
  ⟨x.neg && (layout.signedZero || x.rank != 0), x.rank, x.rank_lt⟩

theorem spell_eq (layout : Decimal.Layout) (x : Finite64) :
    x.spell layout = if (x.shown layout).neg then '-' :: (Decimal.shortest x.rank).spell layout
      else (Decimal.shortest x.rank).spell layout := rfl

/-- Every spelled binary64 value is a JSON number. -/
theorem isNumeral_spell (layout : Decimal.Layout) (x : Finite64) : IsNumeral (x.spell layout) := by
  have h := Decimal.magnitude_spell_shortest layout x.rank_lt
  rw [spell_eq]
  split
  · exact h.isNumeral_minus
  · exact h.isNumeral

/-- A spelled binary64 value reads back as itself, up to the sign of a zero. -/
theorem ofText_spell (layout : Decimal.Layout) (x : Finite64) :
    Binary64.ofText (String.ofList (x.spell layout)) = .finite (x.shown layout) := by
  have h := Decimal.magnitude_spell_shortest layout x.rank_lt
  have hread := Decimal.toBinary64_shortest (x.shown layout)
  rw [spell_eq]
  split
  · rename_i hneg
    rw [Binary64.ofText_of_minus h]
    rwa [hneg] at hread
  · rename_i hneg
    rw [Binary64.ofText_of_magnitude h]
    rwa [Bool.eq_false_iff.2 hneg] at hread

end Finite64

end JsonTree
