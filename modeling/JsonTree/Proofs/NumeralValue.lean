import JsonTree.Decimal.Reading
import JsonTree.Numeral.Grammar
import JsonTree.Proofs.DecimalValue

/-!
# What a numeral denotes, and how it is read

A JSON number denotes a rational: its digits read as one integer, moved by the number of digits
behind the point and by its exponent. The float reader finds that rational in every JSON number.

- `IsNumeral.ExponentValue`: the power of ten of an exponent.
- `IsNumeral.Magnitude`: the rational of a JSON number without a minus.
- `readDecimal_of_magnitude`: the reader finds a decimal of that rational.
- `readFloatText_of_magnitude`, `readFloatText_of_minus`: with and without a minus in front.
- `Binary64.ofText_of_readFloatText`: the value of a text that the reader understands.
- `IsNumeral.Denotes`: the rational of any JSON number; `IsNumeral.Denotes.ofText_finite_iff`: the
  numbers that read as finite values.
-/

namespace JsonTree

namespace IsNumeral

/-- The power of ten that an exponent stands for. -/
inductive ExponentValue : List Char → Int → Prop where
  | absent : ExponentValue [] 0
  | unsigned {mark : Char} {cs : List Char} (isMark : mark = 'e' ∨ mark = 'E')
      (digits : Digits cs) : ExponentValue (mark :: cs) (Nat.ofDigitChars 10 cs 0)
  | plus {mark : Char} {cs : List Char} (isMark : mark = 'e' ∨ mark = 'E')
      (digits : Digits cs) : ExponentValue (mark :: '+' :: cs) (Nat.ofDigitChars 10 cs 0)
  | minus {mark : Char} {cs : List Char} (isMark : mark = 'e' ∨ mark = 'E')
      (digits : Digits cs) : ExponentValue (mark :: '-' :: cs) (-(Nat.ofDigitChars 10 cs 0 : Int))

/-- The rational that a JSON number without a minus denotes. The tail of a fraction leaves out its
point. -/
inductive Magnitude : List Char → ℚ → Prop where
  | mk {whole fraction exponent : List Char} {e : Int} (isWhole : Whole whole)
      (isFraction : Fraction fraction) (isExponent : ExponentValue exponent e) :
      Magnitude (whole ++ fraction ++ exponent)
        (Decimal.value ⟨Nat.ofDigitChars 10 (whole ++ fraction.tail) 0, e - fraction.tail.length⟩)

/-- An exponent with a value is an exponent of the grammar. -/
theorem ExponentValue.isExponent {cs : List Char} {e : Int} (h : ExponentValue cs e) :
    Exponent cs := by
  cases h with
  | absent => exact .absent
  | unsigned isMark digits => exact .unsigned isMark digits
  | plus isMark digits => exact .signed isMark (Or.inl rfl) digits
  | minus isMark digits => exact .signed isMark (Or.inr rfl) digits

/-- A magnitude is a numeral by itself. -/
theorem Magnitude.isNumeral {cs : List Char} {q : ℚ} (h : Magnitude cs q) : IsNumeral cs := by
  cases h with
  | mk isWhole isFraction isExponent => exact .unsigned isWhole isFraction isExponent.isExponent

/-- A magnitude with a minus before it is a numeral. -/
theorem Magnitude.isNumeral_minus {cs : List Char} {q : ℚ} (h : Magnitude cs q) :
    IsNumeral ('-' :: cs) := by
  cases h with
  | mk isWhole isFraction isExponent => exact .negative isWhole isFraction isExponent.isExponent

/-- A lone zero. -/
theorem digits_zero : Digits ['0'] :=
  ⟨List.cons_ne_nil '0' [], List.forall_mem_cons.2 ⟨rfl, List.forall_mem_nil _⟩⟩

/-- A whole part is digits; its grammar only adds that no zero leads. -/
theorem Whole.digits {cs : List Char} (h : Whole cs) : Digits cs := by
  cases h with
  | zero => exact digits_zero
  | positive lead _ digits =>
    exact ⟨List.cons_ne_nil _ _, List.forall_mem_cons.2 ⟨lead, digits⟩⟩

/-- A whole part alone denotes the integer of its digits. -/
theorem Whole.magnitude {cs : List Char} (h : Whole cs) :
    Magnitude cs (Nat.ofDigitChars 10 cs 0 : Nat) := by
  have hmagnitude := Magnitude.mk h .absent .absent
  simpa [Decimal.value] using hmagnitude

/-! ## Characters that end a run of digits -/

/-- The text does not begin with a digit. -/
def NoLeadingDigit (cs : List Char) : Prop := ∀ c, cs.head? = some c → ¬ c.isDigit

theorem noLeadingDigit_nil : NoLeadingDigit [] := by
  intro c h
  cases h

theorem noLeadingDigit_cons {c : Char} (h : ¬ c.isDigit) (cs : List Char) :
    NoLeadingDigit (c :: cs) := by
  intro d hd
  cases hd
  exact h

/-- An exponent starts with its mark, so it ends the digits before it. -/
theorem Exponent.noLeadingDigit {cs : List Char} (h : Exponent cs) : NoLeadingDigit cs := by
  cases h with
  | absent => exact noLeadingDigit_nil
  | unsigned isMark _ => exact noLeadingDigit_cons (not_isDigit_mark isMark) _
  | signed isMark _ _ => exact noLeadingDigit_cons (not_isDigit_mark isMark) _

/-- A fraction starts with its point, so it ends the digits before it. -/
theorem Fraction.noLeadingDigit {fraction exponent : List Char} (hf : Fraction fraction)
    (he : Exponent exponent) : NoLeadingDigit (fraction ++ exponent) := by
  cases hf with
  | absent => exact he.noLeadingDigit
  | present _ => exact noLeadingDigit_cons (by decide) _

/-- The digits up to something else are read as one run. -/
theorem takeWhile_digits {digits rest : List Char} (h : ∀ c ∈ digits, c.isDigit)
    (hrest : NoLeadingDigit rest) : (digits ++ rest).takeWhile Char.isDigit = digits := by
  rw [List.takeWhile_append_of_pos h]
  cases rest with
  | nil => exact List.append_nil _
  | cons c cs =>
    rw [List.takeWhile_cons_of_neg (hrest c rfl), List.append_nil]

/-- Behind the digits the reading goes on with what follows them. -/
theorem dropWhile_digits {digits rest : List Char} (h : ∀ c ∈ digits, c.isDigit)
    (hrest : NoLeadingDigit rest) : (digits ++ rest).dropWhile Char.isDigit = rest := by
  rw [List.dropWhile_append_of_pos h]
  cases rest with
  | nil => rfl
  | cons c cs => exact List.dropWhile_cons_of_neg (hrest c rfl)

end IsNumeral

open IsNumeral

/-! ## Readers -/

/-- Digits are read by their value, leading zeros included. -/
theorem readDigits_of_digits {cs : List Char} (h : Digits cs) :
    readDigits? cs = some (Nat.ofDigitChars 10 cs 0) :=
  if_pos ⟨h.1, List.all_eq_true.2 h.2⟩

theorem readSign_of_isDigit {c : Char} (h : c.isDigit) (cs : List Char) :
    readSign (c :: cs) = (false, c :: cs) := by
  unfold readSign
  split
  · rename_i heq
    cases heq
    exact absurd h (by decide)
  · rename_i heq
    cases heq
    exact absurd h (by decide)
  · rfl

theorem readSign_of_digits {cs : List Char} (h : Digits cs) : readSign cs = (false, cs) := by
  obtain ⟨hne, hdigits⟩ := h
  cases cs with
  | nil => exact absurd rfl hne
  | cons c cs => exact readSign_of_isDigit (hdigits c List.mem_cons_self) cs

/-- An integer without a sign is read by its digits. -/
theorem readInteger_of_digits {cs : List Char} (h : Digits cs) :
    readInteger? cs = some (Nat.ofDigitChars 10 cs 0 : Int) := by
  unfold readInteger?
  rw [readSign_of_digits h]
  simp [readDigits_of_digits h]

/-- A plus changes nothing. -/
theorem readInteger_plus {cs : List Char} (h : Digits cs) :
    readInteger? ('+' :: cs) = some (Nat.ofDigitChars 10 cs 0 : Int) := by
  unfold readInteger?
  simp [readSign, readDigits_of_digits h]

/-- A minus turns the value around. -/
theorem readInteger_minus {cs : List Char} (h : Digits cs) :
    readInteger? ('-' :: cs) = some (-(Nat.ofDigitChars 10 cs 0 : Int)) := by
  unfold readInteger?
  simp [readSign, readDigits_of_digits h]

/-- An integer is a sign and digits. -/
theorem readInteger_eq_some {cs : List Char} {n : Int} (h : readInteger? cs = some n) :
    ∃ m : Nat, readDigits? (readSign cs).2 = some m ∧
      n = if (readSign cs).1 then -(m : Int) else m := by
  obtain ⟨k, hk, rfl⟩ := Option.map_eq_some_iff.1 h
  obtain ⟨m, hm, hcast⟩ := Option.bind_eq_some_iff.1 hk
  cases hcast
  exact ⟨m, hm, rfl⟩

/-- An exponent is read by its value. -/
theorem readExponent_of_exponentValue {cs : List Char} {e : Int} (h : ExponentValue cs e) :
    readExponent? cs = some e := by
  cases h with
  | absent => rfl
  | unsigned isMark digits => exact (if_pos isMark).trans (readInteger_of_digits digits)
  | plus isMark digits => exact (if_pos isMark).trans (readInteger_plus digits)
  | minus isMark digits => exact (if_pos isMark).trans (readInteger_minus digits)

/-- An exponent does not begin with a point. -/
theorem readFraction_of_exponent {exponent : List Char} (he : Exponent exponent) :
    readFraction exponent = ([], exponent) := by
  cases he with
  | absent => rfl
  | unsigned isMark _ =>
    rcases isMark with rfl | rfl
    · rfl
    · rfl
  | signed isMark _ _ =>
    rcases isMark with rfl | rfl
    · rfl
    · rfl

/-- The digits behind a point are read up to the exponent. -/
theorem readFraction_of_point {fraction exponent : List Char} (hf : ∀ c ∈ fraction, c.isDigit)
    (he : Exponent exponent) :
    readFraction ('.' :: (fraction ++ exponent)) = (fraction, exponent) := by
  have hrest := he.noLeadingDigit
  show ((fraction ++ exponent).takeWhile Char.isDigit,
    (fraction ++ exponent).dropWhile Char.isDigit) = _
  rw [takeWhile_digits hf hrest, dropWhile_digits hf hrest]

/-- A fraction of the grammar is read without its point, and an absent one as no digits. -/
theorem readFraction_of_fraction {fraction exponent : List Char} (hf : Fraction fraction)
    (he : Exponent exponent) : readFraction (fraction ++ exponent) = (fraction.tail, exponent) := by
  cases hf with
  | absent => exact readFraction_of_exponent he
  | present digits => exact readFraction_of_point digits.2 he

/-- The reader parts a decimal where the digits end, since neither a point nor an exponent begins
with a digit. -/
theorem readDecimal_of_parts {whole tail fraction exponent : List Char} {e : Int}
    (hwhole : ∀ c ∈ whole, c.isDigit) (htail : NoLeadingDigit tail)
    (hfraction : readFraction tail = (fraction, exponent)) (hne : ¬ (whole = [] ∧ fraction = []))
    (hexponent : ExponentValue exponent e) :
    readDecimal? (whole ++ tail) =
      some ⟨Nat.ofDigitChars 10 (whole ++ fraction) 0, e - fraction.length⟩ := by
  unfold readDecimal?
  rw [takeWhile_digits hwhole htail, dropWhile_digits hwhole htail, hfraction]
  simp only
  rw [if_neg hne, readExponent_of_exponentValue hexponent]
  rfl

/-- The reader finds a decimal of the rational that a JSON number denotes. -/
theorem readDecimal_of_magnitude {cs : List Char} {q : ℚ} (h : Magnitude cs q) :
    ∃ d, readDecimal? cs = some d ∧ d.value = q := by
  cases h with
  | @mk whole fraction exponent e isWhole isFraction isExponent =>
    have hdigits := isWhole.digits
    refine ⟨_, ?_, rfl⟩
    rw [List.append_assoc]
    exact readDecimal_of_parts hdigits.2 (isFraction.noLeadingDigit isExponent.isExponent)
      (readFraction_of_fraction isFraction isExponent.isExponent)
      (fun hnil => hdigits.1 hnil.1) isExponent

/-! ## Float texts -/

theorem IsNumeral.Magnitude.exists_digit {cs : List Char} {q : ℚ} (h : Magnitude cs q) :
    ∃ c rest, cs = c :: rest ∧ c.isDigit := by
  cases h with
  | @mk whole fraction exponent e isWhole _ _ =>
    cases isWhole with
    | zero => exact ⟨'0', fraction ++ exponent, rfl, by decide⟩
    | @positive c cs lead _ _ => exact ⟨c, cs ++ fraction ++ exponent, rfl, lead⟩

theorem toLower_of_isDigit {c : Char} (h : c.isDigit) : c.toLower = c := by
  have hle : c.val ≤ '9'.val := by
    unfold Char.isDigit at h
    exact of_decide_eq_true (Bool.and_eq_true_iff.1 h).2
  have hlt : ¬ (c.val ≥ 'A'.val ∧ c.val ≤ 'Z'.val) := by
    rintro ⟨hge, -⟩
    exact absurd (UInt32.le_trans hge hle) (by decide)
  exact dif_neg hlt

/-- A text that begins with a digit is none of the words. -/
theorem readWord_of_isDigit (neg : Bool) {c : Char} (h : c.isDigit) (cs : List Char) :
    readWord? neg ((c :: cs).map Char.toLower) = none := by
  -- lower case leaves a digit as it is, and the words begin with letters
  have hne : ∀ (d : Char) (ds : List Char), ¬ d.isDigit →
      (c :: cs).map Char.toLower ≠ d :: ds := by
    intro d ds hd heq
    rw [List.map_cons, toLower_of_isDigit h] at heq
    injection heq with heq
    exact hd (heq ▸ h)
  unfold readWord?
  rw [if_neg, if_neg]
  · exact hne 'n' ['a', 'n'] (by decide)
  · rintro (heq | heq)
    · exact hne 'i' ['n', 'f'] (by decide) heq
    · exact hne 'i' ['n', 'f', 'i', 'n', 'i', 't', 'y'] (by decide) heq

/-- The reader gives a decimal of exactly the value that the grammar gives. -/
theorem readFloatText_of_magnitude {cs : List Char} {q : ℚ} (h : Magnitude cs q) :
    ∃ d, readFloatText? cs = some (.decimal false d) ∧ d.value = q := by
  obtain ⟨d, hread, hvalue⟩ := readDecimal_of_magnitude h
  obtain ⟨c, rest, rfl, hc⟩ := h.exists_digit
  refine ⟨d, ?_, hvalue⟩
  unfold readFloatText?
  rw [readSign_of_isDigit hc]
  simp only
  rw [readWord_of_isDigit false hc, hread]
  rfl

theorem readFloatText_of_minus {cs : List Char} {q : ℚ} (h : Magnitude cs q) :
    ∃ d, readFloatText? ('-' :: cs) = some (.decimal true d) ∧ d.value = q := by
  obtain ⟨d, hread, hvalue⟩ := readDecimal_of_magnitude h
  obtain ⟨c, rest, rfl, hc⟩ := h.exists_digit
  refine ⟨d, ?_, hvalue⟩
  unfold readFloatText?
  simp only [readSign]
  rw [readWord_of_isDigit true hc, hread]
  rfl

namespace Binary64

/-- The float of a text is the rounding of what is read from it. -/
theorem ofText_of_readFloatText {cs : List Char} {t : FloatText}
    (h : readFloatText? cs = some t) : ofText (String.ofList cs) = t.toBinary64 := by
  rw [ofText, String.toList_ofList, h]
  rfl

/-- The binary64 value of a JSON number without a minus depends on its rational alone. -/
theorem ofText_of_magnitude {cs : List Char} {d : Decimal} (h : Magnitude cs d.value) :
    ofText (String.ofList cs) = d.toBinary64 false := by
  obtain ⟨d', hread, hvalue⟩ := readFloatText_of_magnitude h
  rw [ofText_of_readFloatText hread]
  exact Decimal.toBinary64_congr false hvalue

/-- The binary64 value of a JSON number with a minus depends on the rational behind it alone. -/
theorem ofText_of_minus {cs : List Char} {d : Decimal} (h : Magnitude cs d.value) :
    ofText (String.ofList ('-' :: cs)) = d.toBinary64 true := by
  obtain ⟨d', hread, hvalue⟩ := readFloatText_of_minus h
  rw [ofText_of_readFloatText hread]
  exact Decimal.toBinary64_congr true hvalue

end Binary64

/-! ## Denotation -/

namespace IsNumeral

/-- The rational that a JSON number denotes. -/
inductive Denotes : List Char → ℚ → Prop where
  | unsigned {cs : List Char} {q : ℚ} (magnitude : Magnitude cs q) : Denotes cs q
  | negative {cs : List Char} {q : ℚ} (magnitude : Magnitude cs q) : Denotes ('-' :: cs) (-q)

/-- Every exponent of the grammar has a value. -/
theorem Exponent.exists_value {cs : List Char} (h : Exponent cs) : ∃ e, ExponentValue cs e := by
  cases h with
  | absent => exact ⟨_, .absent⟩
  | unsigned isMark digits => exact ⟨_, .unsigned isMark digits⟩
  | signed isMark isSign digits =>
    rcases isSign with rfl | rfl
    · exact ⟨_, .plus isMark digits⟩
    · exact ⟨_, .minus isMark digits⟩

/-- Every JSON number denotes a rational. -/
theorem exists_denotes {cs : List Char} (h : IsNumeral cs) : ∃ q, Denotes cs q := by
  cases h with
  | unsigned isWhole isFraction isExponent =>
    obtain ⟨e, he⟩ := isExponent.exists_value
    exact ⟨_, .unsigned (.mk isWhole isFraction he)⟩
  | negative isWhole isFraction isExponent =>
    obtain ⟨e, he⟩ := isExponent.exists_value
    exact ⟨_, .negative (.mk isWhole isFraction he)⟩

namespace Denotes

variable {cs : List Char} {q r : ℚ}

/-- Only numerals denote a value. -/
theorem isNumeral (h : Denotes cs q) : IsNumeral cs := by
  cases h with
  | unsigned magnitude => exact magnitude.isNumeral
  | negative magnitude => exact magnitude.isNumeral_minus

/-- The float reader finds the rational: a sign, and a decimal of its magnitude. -/
theorem exists_readFloatText (h : Denotes cs q) :
    ∃ neg d, readFloatText? cs = some (.decimal neg d) ∧
      q = if neg then -d.value else d.value := by
  cases h with
  | unsigned magnitude =>
    obtain ⟨d, hread, hvalue⟩ := readFloatText_of_magnitude magnitude
    exact ⟨false, d, hread, hvalue.symm⟩
  | negative magnitude =>
    obtain ⟨d, hread, hvalue⟩ := readFloatText_of_minus magnitude
    exact ⟨true, d, hread, congrArg Neg.neg hvalue.symm⟩

/-- A JSON number denotes one rational only. -/
theorem unique (hq : Denotes cs q) (hr : Denotes cs r) : q = r := by
  obtain ⟨neg, d, hread, rfl⟩ := hq.exists_readFloatText
  obtain ⟨neg', d', hread', rfl⟩ := hr.exists_readFloatText
  rw [hread] at hread'
  cases hread'
  rfl

/-- A JSON number reads as the nearest value of its magnitude. -/
theorem exists_ofText (h : Denotes cs q) :
    ∃ (neg : Bool) (d : Decimal),
      Binary64.ofText (String.ofList cs) = d.toBinary64 neg ∧ d.value = |q| := by
  obtain ⟨neg, d, hread, rfl⟩ := h.exists_readFloatText
  refine ⟨neg, d, Binary64.ofText_of_readFloatText hread, ?_⟩
  cases neg with
  | false => exact (abs_of_nonneg d.value_nonneg).symm
  | true => exact ((abs_neg _).trans (abs_of_nonneg d.value_nonneg)).symm

/-- A JSON number reads as a finite value if its magnitude stays below the bound. -/
theorem ofText_finite_iff (h : Denotes cs q) :
    (∃ x, Binary64.ofText (String.ofList cs) = .finite x) ↔ |q| < Binary64.overflowBound := by
  obtain ⟨neg, d, htext, hvalue⟩ := h.exists_ofText
  rw [htext, d.exists_finite_iff neg, hvalue]

end Denotes

end IsNumeral

end JsonTree
