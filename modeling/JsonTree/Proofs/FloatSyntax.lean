import JsonTree.Proofs.NearestValue
import JsonTree.Proofs.NumeralValue
import Mathlib.Data.List.Forall2
import Mathlib.Data.List.TakeWhile

/-!
# The syntax of integer and float texts

Which texts are read as integers and as floats, as sets of character sequences, and what they say:

    integer  = sign digits
    float    = sign ( "inf" / "infinity" / "nan" / mantissa exponent )
    sign     = nothing / "+" / "-"
    mantissa = digits / digits with a point in, before or behind them
    exponent = nothing / "e" or "E", a sign, and digits

The words may be written in any letter case. The readers accept these texts, and read what they say.

- `FloatSyntax.IntegerDenotes`: the integer of a text; `readInteger_eq_some_iff`.
- `FloatSyntax.Denotes`: the sign and the rational of a text; `readFloatText_decimal_iff`.
- `FloatSyntax.SpellsInfinity`, `FloatSyntax.SpellsNan`: the words; `readFloatText_infinity_iff`,
  `readFloatText_nan_iff`.
- `FloatSyntax.IsFloatText`: all of these texts; `readFloatText_eq_none_iff`.
-/

namespace JsonTree

open IsNumeral

namespace FloatSyntax

/-! ## The grammar -/

/-- An optional sign, and whether it is a minus. -/
inductive Sign : List Char → Bool → Prop where
  | absent : Sign [] false
  | plus : Sign ['+'] false
  | minus : Sign ['-'] true

/-- The integer of a sign and digits, which may begin with zeros. -/
inductive IntegerDenotes : List Char → Int → Prop where
  | mk {sign digits : List Char} {neg : Bool} (isSign : Sign sign neg) (isDigits : Digits digits) :
      IntegerDenotes (sign ++ digits)
        (if neg then -(Nat.ofDigitChars 10 digits 0 : Int) else Nat.ofDigitChars 10 digits 0)

/-- Digits with an optional point, and one digit at least: the digits without the point, and how
many of them stand behind it. -/
inductive Mantissa : List Char → List Char → Nat → Prop where
  | integral {digits : List Char} (isDigits : Digits digits) : Mantissa digits digits 0
  | pointed {whole fraction : List Char} (isWhole : ∀ c ∈ whole, c.isDigit)
      (isFraction : ∀ c ∈ fraction, c.isDigit) (nonempty : ¬ (whole = [] ∧ fraction = [])) :
      Mantissa (whole ++ '.' :: fraction) (whole ++ fraction) fraction.length

/-- The rational of a text without a sign. -/
inductive Magnitude : List Char → ℚ → Prop where
  | mk {mantissa exponent digits : List Char} {places : Nat} {e : Int}
      (isMantissa : Mantissa mantissa digits places) (isExponent : ExponentValue exponent e) :
      Magnitude (mantissa ++ exponent)
        (Decimal.value ⟨Nat.ofDigitChars 10 digits 0, e - places⟩)

/-- The sign and the rational of a text of digits. -/
inductive Denotes : List Char → Bool → ℚ → Prop where
  | mk {sign body : List Char} {neg : Bool} {q : ℚ} (isSign : Sign sign neg)
      (magnitude : Magnitude body q) : Denotes (sign ++ body) neg (withSign neg q)

/-- A text and a value that are given in another form denote the same. -/
theorem Denotes.of_eq {sign mantissa exponent digits cs : List Char} {neg : Bool} {places : Nat}
    {e : Int} {q : ℚ} (isSign : Sign sign neg) (isMantissa : Mantissa mantissa digits places)
    (isExponent : ExponentValue exponent e) (hcs : cs = sign ++ (mantissa ++ exponent))
    (hq : q = withSign neg (Decimal.value ⟨Nat.ofDigitChars 10 digits 0, e - places⟩)) :
    Denotes cs neg q := by
  subst hcs hq
  exact .mk isSign (.mk isMantissa isExponent)

/-- A word, given in small letters, with each letter in either case. -/
def SpellsWord (word cs : List Char) : Prop :=
  List.Forall₂ (fun c letter => c = letter ∨ c = letter.toUpper) cs word

/-- A word for an infinity behind a sign. -/
inductive SpellsInfinity : List Char → Bool → Prop where
  | mk {sign body : List Char} {neg : Bool} (isSign : Sign sign neg)
      (isWord : SpellsWord "inf".toList body ∨ SpellsWord "infinity".toList body) :
      SpellsInfinity (sign ++ body) neg

/-- The word for what is not a number, behind a sign. -/
inductive SpellsNan : List Char → Prop where
  | mk {sign body : List Char} {neg : Bool} (isSign : Sign sign neg)
      (isWord : SpellsWord "nan".toList body) : SpellsNan (sign ++ body)

/-- The texts in the float syntax. -/
def IsFloatText (cs : List Char) : Prop :=
  (∃ neg q, Denotes cs neg q) ∨ (∃ neg, SpellsInfinity cs neg) ∨ SpellsNan cs

/-! ## Signs -/

/-- The text does not begin with a sign. -/
def NoLeadingSign (cs : List Char) : Prop := ∀ c, cs.head? = some c → c ≠ '-' ∧ c ≠ '+'

/-- Where no sign stands, none is read. -/
theorem readSign_of_noLeadingSign {cs : List Char} (h : NoLeadingSign cs) :
    readSign cs = (false, cs) := by
  unfold readSign
  split
  · exact absurd rfl (h '-' rfl).1
  · exact absurd rfl (h '+' rfl).2
  · rfl

/-- One sign is read, and not a second one behind it. -/
theorem readSign_append {sign body : List Char} {neg : Bool} (hsign : Sign sign neg)
    (hbody : NoLeadingSign body) : readSign (sign ++ body) = (neg, body) := by
  cases hsign with
  | absent => exact readSign_of_noLeadingSign hbody
  | plus => rfl
  | minus => rfl

/-- What is read as a sign stood at the start of the text. -/
theorem exists_sign (cs : List Char) :
    ∃ sign, Sign sign (readSign cs).1 ∧ cs = sign ++ (readSign cs).2 := by
  unfold readSign
  split
  · exact ⟨['-'], .minus, rfl⟩
  · exact ⟨['+'], .plus, rfl⟩
  · exact ⟨[], .absent, rfl⟩

theorem noLeadingSign_cons {c : Char} (h : c ≠ '-' ∧ c ≠ '+') (cs : List Char) :
    NoLeadingSign (c :: cs) := by
  intro d hd
  cases hd
  exact h

/-- No digit is a sign. -/
theorem ne_sign_of_isDigit {c : Char} (h : c.isDigit) : c ≠ '-' ∧ c ≠ '+' := by
  constructor
  · rintro rfl
    exact absurd h (by decide)
  · rintro rfl
    exact absurd h (by decide)

theorem noLeadingSign_of_digits {cs : List Char} (h : Digits cs) : NoLeadingSign cs := by
  intro c hc
  exact ne_sign_of_isDigit (h.2 c (List.mem_of_mem_head? hc))

/-! ## Integers -/

theorem digits_of_all {cs : List Char} (hne : cs ≠ []) (h : cs.all Char.isDigit) : Digits cs :=
  ⟨hne, List.all_eq_true.1 h⟩

/-- Digits are read from digits only, and by their value. -/
theorem digits_of_readDigits {cs : List Char} {n : Nat} (h : readDigits? cs = some n) :
    Digits cs ∧ n = Nat.ofDigitChars 10 cs 0 := by
  unfold readDigits? at h
  split at h
  · rename_i hdigits
    cases h
    exact ⟨digits_of_all hdigits.1 hdigits.2, rfl⟩
  · cases h

/-- The integer reader accepts a sign and digits, and nothing else. -/
theorem readInteger_eq_some_iff {cs : List Char} {n : Int} :
    readInteger? cs = some n ↔ IntegerDenotes cs n := by
  constructor
  · intro h
    obtain ⟨m, hm, rfl⟩ := readInteger_eq_some h
    obtain ⟨hdigits, rfl⟩ := digits_of_readDigits hm
    obtain ⟨sign, hsign, hcs⟩ := exists_sign cs
    have hmk := IntegerDenotes.mk hsign hdigits
    rwa [← hcs] at hmk
  · rintro ⟨isSign, isDigits⟩
    unfold readInteger?
    rw [readSign_append isSign (noLeadingSign_of_digits isDigits), readDigits_of_digits isDigits]
    rfl

/-- What is read as an exponent is one. -/
theorem exponentValue_of_readExponent {cs : List Char} {e : Int} (h : readExponent? cs = some e) :
    ExponentValue cs e := by
  cases cs with
  | nil =>
    cases h
    exact .absent
  | cons mark cs =>
    by_cases isMark : mark = 'e' ∨ mark = 'E'
    · rw [readExponent?, if_pos isMark] at h
      obtain ⟨isSign, isDigits⟩ := readInteger_eq_some_iff.1 h
      cases isSign with
      | absent => exact .unsigned isMark isDigits
      | plus => exact .plus isMark isDigits
      | minus => exact .minus isMark isDigits
    · rw [readExponent?, if_neg isMark] at h
      cases h

/-! ## Decimals -/

/-- Behind a point all digits are read, and without a point nothing. -/
theorem readFraction_cases (cs : List Char) :
    (∃ fraction rest, cs = '.' :: (fraction ++ rest) ∧ (∀ c ∈ fraction, c.isDigit) ∧
        readFraction cs = (fraction, rest)) ∨
      readFraction cs = ([], cs) := by
  unfold readFraction
  split
  · rename_i cs
    refine Or.inl ⟨_, _, ?_, fun c hc => List.mem_takeWhile_imp hc, rfl⟩
    rw [List.takeWhile_append_dropWhile]
  · exact Or.inr rfl

/-- What is read as a decimal denotes it. -/
theorem magnitude_of_readDecimal {cs : List Char} {d : Decimal} (h : readDecimal? cs = some d) :
    Magnitude cs d.value := by
  have hwhole : ∀ c ∈ cs.takeWhile Char.isDigit, c.isDigit := fun c hc => List.mem_takeWhile_imp hc
  have hcs : cs = cs.takeWhile Char.isDigit ++ cs.dropWhile Char.isDigit :=
    List.takeWhile_append_dropWhile.symm
  unfold readDecimal? at h
  -- from here on only that the one part is digits and that both make up the text
  generalize cs.takeWhile Char.isDigit = whole at *
  generalize cs.dropWhile Char.isDigit = tail at *
  subst hcs
  rcases readFraction_cases tail with ⟨fraction, rest, rfl, hfraction, hread⟩ | hread
  · rw [hread] at h
    dsimp only at h
    split at h
    · cases h
    · rename_i hne
      obtain ⟨e, he, rfl⟩ := Option.map_eq_some_iff.1 h
      have hmantissa := Mantissa.pointed hwhole hfraction hne
      have hmk := Magnitude.mk hmantissa (exponentValue_of_readExponent he)
      rwa [List.append_assoc, List.cons_append] at hmk
  · rw [hread] at h
    dsimp only at h
    split at h
    · cases h
    · rename_i hne
      obtain ⟨e, he, rfl⟩ := Option.map_eq_some_iff.1 h
      have hdigits : Digits whole := ⟨fun hnil => hne ⟨hnil, rfl⟩, hwhole⟩
      have hmk := Magnitude.mk (.integral hdigits) (exponentValue_of_readExponent he)
      rwa [List.append_nil]

/-- The reader finds a decimal of the rational that a text denotes. -/
theorem readDecimal_of_magnitude {cs : List Char} {q : ℚ} (h : Magnitude cs q) :
    ∃ d, readDecimal? cs = some d ∧ d.value = q := by
  obtain ⟨isMantissa, isExponent⟩ := h
  refine ⟨_, ?_, rfl⟩
  cases isMantissa with
  | integral isDigits =>
    have hread := readDecimal_of_parts isDigits.2 isExponent.isExponent.noLeadingDigit
      (readFraction_of_exponent isExponent.isExponent) (fun hnil => isDigits.1 hnil.1) isExponent
    rwa [List.append_nil] at hread
  | pointed isWhole isFraction nonempty =>
    rw [List.append_assoc, List.cons_append]
    exact readDecimal_of_parts isWhole (noLeadingDigit_cons (by decide) _)
      (readFraction_of_point isFraction isExponent.isExponent) nonempty isExponent

/-! ## Words -/

/-- The small letters by their code points. -/
theorem isLower_iff_toNat {c : Char} : c.isLower ↔ 97 ≤ c.toNat ∧ c.toNat ≤ 122 := by
  show (decide (c.val ≥ 'a'.val) && decide (c.val ≤ 'z'.val)) = true ↔ _
  simp [UInt32.le_iff_toNat_le, ← Char.toNat_val]

/-- Capital letters lie thirty-two code points below the small ones; other characters stay. -/
theorem toNat_toLower (c : Char) :
    c.toLower.toNat = if 65 ≤ c.toNat ∧ c.toNat ≤ 90 then c.toNat + 32 else c.toNat := by
  have hiff : (c.val ≥ 'A'.val ∧ c.val ≤ 'Z'.val) ↔ 65 ≤ c.toNat ∧ c.toNat ≤ 90 := by
    simp [UInt32.le_iff_toNat_le, ← Char.toNat_val]
  unfold Char.toLower
  by_cases h : c.val ≥ 'A'.val ∧ c.val ≤ 'Z'.val
  · have hcode := hiff.1 h
    have hshift : ('a'.val - 'A'.val).toNat = 32 := by decide
    rw [← Char.toNat_val] at hcode
    rw [dif_pos h, if_pos (hiff.1 h), ← Char.toNat_val, ← Char.toNat_val, UInt32.toNat_add, hshift]
    omega
  · rw [dif_neg h, if_neg (mt hiff.2 h)]

/-- The way back, for small letters. -/
theorem toNat_toUpper {c : Char} (h : c.isLower) : c.toUpper.toNat = c.toNat - 32 := by
  have hcode := isLower_iff_toNat.1 h
  have hval : 'a'.val ≤ c.val ∧ c.val ≤ 'z'.val := by
    simpa [UInt32.le_iff_toNat_le, ← Char.toNat_val] using hcode
  have hshift : ('A'.val - 'a'.val).toNat = 2 ^ 32 - 32 := by decide
  rw [← Char.toNat_val] at hcode
  unfold Char.toUpper
  rw [dif_pos hval, ← Char.toNat_val, ← Char.toNat_val, UInt32.toNat_add, hshift]
  omega

/-- A small letter is the lower case of itself and of its capital alone. -/
theorem toLower_eq_iff {c letter : Char} (h : letter.isLower) :
    c.toLower = letter ↔ c = letter ∨ c = letter.toUpper := by
  have hcode := isLower_iff_toNat.1 h
  rw [← Char.toNat_inj, ← Char.toNat_inj, ← Char.toNat_inj, toNat_toLower, toNat_toUpper h]
  split
  · omega
  · omega

/-- A text has a word for its small letters exactly if it spells the word in letters of any case. -/
theorem map_toLower_eq_iff {word cs : List Char} (h : ∀ letter ∈ word, letter.isLower) :
    cs.map Char.toLower = word ↔ SpellsWord word cs := by
  unfold SpellsWord
  induction word generalizing cs with
  | nil => rw [List.map_eq_nil_iff, List.forall₂_nil_right_iff]
  | cons letter word ih =>
    obtain ⟨hletter, hword⟩ := List.forall_mem_cons.1 h
    cases cs with
    | nil => exact iff_of_false nofun nofun
    | cons c cs =>
      rw [List.map_cons, List.cons.injEq, List.forall₂_cons, toLower_eq_iff hletter, ih hword]

/-- The words are in small letters, by evaluation. -/
theorem inf_isLower : ∀ letter ∈ "inf".toList, letter.isLower :=
  List.all_eq_true.1 (by decide)

theorem infinity_isLower : ∀ letter ∈ "infinity".toList, letter.isLower :=
  List.all_eq_true.1 (by decide)

theorem nan_isLower : ∀ letter ∈ "nan".toList, letter.isLower :=
  List.all_eq_true.1 (by decide)

/-- A word starts with a letter, so the sign before it is read whole. -/
theorem noLeadingSign_of_spellsWord {word cs : List Char} (h : ∀ letter ∈ word, letter.isLower)
    (hcs : SpellsWord word cs) : NoLeadingSign cs := by
  intro c hc
  have hmem : c.toLower ∈ word :=
    (map_toLower_eq_iff h).2 hcs ▸ List.mem_map_of_mem (List.mem_of_mem_head? hc)
  have hletter := h _ hmem
  constructor
  · rintro rfl
    exact absurd hletter (by decide)
  · rintro rfl
    exact absurd hletter (by decide)

/-- Infinity has a short and a long spelling, and the sign that was read before it. -/
theorem readWord_eq_infinity_iff {neg other : Bool} {cs : List Char} :
    readWord? neg (cs.map Char.toLower) = some (.infinity other) ↔
      other = neg ∧ (SpellsWord "inf".toList cs ∨ SpellsWord "infinity".toList cs) := by
  rw [← map_toLower_eq_iff inf_isLower, ← map_toLower_eq_iff infinity_isLower]
  unfold readWord?
  split
  · rename_i hword
    rw [Option.some.injEq, FloatText.infinity.injEq, eq_comm]
    exact (and_iff_left hword).symm
  · rename_i hword
    refine iff_of_false ?_ fun h => hword h.2
    split
    · exact nofun
    · exact nofun

/-- The word for no number has one spelling, and a sign before it is lost. -/
theorem readWord_eq_nan_iff {neg : Bool} {cs : List Char} :
    readWord? neg (cs.map Char.toLower) = some .nan ↔ SpellsWord "nan".toList cs := by
  rw [← map_toLower_eq_iff nan_isLower]
  unfold readWord?
  split
  · rename_i hword
    refine iff_of_false nofun fun hnan => ?_
    rw [hnan] at hword
    exact absurd hword (by decide)
  · split
    · rename_i hword
      exact iff_of_true rfl hword
    · rename_i hword
      exact iff_of_false nofun hword

/-- No word is read as a decimal. -/
theorem readWord_ne_decimal {neg other : Bool} {cs : List Char} {d : Decimal} :
    readWord? neg cs ≠ some (.decimal other d) := by
  unfold readWord?
  split
  · exact nofun
  · split
    · exact nofun
    · exact nofun

/-! ## Float texts -/

/-- A mantissa starts with a digit or with the point before its fraction. -/
theorem Mantissa.exists_head {cs digits : List Char} {places : Nat} (h : Mantissa cs digits places) :
    ∃ c rest, cs = c :: rest ∧ (c.isDigit ∨ c = '.') := by
  cases h with
  | integral isDigits =>
    obtain ⟨hne, hdigits⟩ := isDigits
    cases cs with
    | nil => exact absurd rfl hne
    | cons c cs => exact ⟨c, cs, rfl, Or.inl (hdigits c List.mem_cons_self)⟩
  | @pointed whole fraction isWhole _ _ =>
    cases whole with
    | nil => exact ⟨'.', fraction, rfl, Or.inr rfl⟩
    | cons c whole => exact ⟨c, _, rfl, Or.inl (isWhole c List.mem_cons_self)⟩

theorem Magnitude.exists_head {cs : List Char} {q : ℚ} (h : Magnitude cs q) :
    ∃ c rest, cs = c :: rest ∧ (c.isDigit ∨ c = '.') := by
  obtain ⟨isMantissa, -⟩ := h
  obtain ⟨c, rest, rfl, hc⟩ := isMantissa.exists_head
  exact ⟨c, _, rfl, hc⟩

/-- A magnitude starts with no sign, so the sign before it is read whole. -/
theorem Magnitude.noLeadingSign {cs : List Char} {q : ℚ} (h : Magnitude cs q) :
    NoLeadingSign cs := by
  obtain ⟨c, rest, rfl, hc | rfl⟩ := h.exists_head
  · exact noLeadingSign_cons (ne_sign_of_isDigit hc) rest
  · exact noLeadingSign_cons (by decide) rest

/-- No text of digits is one of the words. -/
theorem Magnitude.readWord {cs : List Char} {q : ℚ} (h : Magnitude cs q) (neg : Bool) :
    readWord? neg (cs.map Char.toLower) = none := by
  obtain ⟨c, rest, rfl, hc | rfl⟩ := h.exists_head
  · exact readWord_of_isDigit neg hc rest
  · rfl

/-- Behind the sign a word is tried first, and then a decimal. -/
theorem readFloatText_append {sign body : List Char} {neg : Bool} (hsign : Sign sign neg)
    (hbody : NoLeadingSign body) :
    readFloatText? (sign ++ body) =
      (readWord? neg (body.map Char.toLower)).or ((readDecimal? body).map (.decimal neg)) := by
  unfold readFloatText?
  rw [readSign_append hsign hbody]

/-- A text is read behind its sign, as a word or as a decimal. -/
theorem readFloatText_cases {cs : List Char} {t : FloatText} (h : readFloatText? cs = some t) :
    ∃ sign body neg, Sign sign neg ∧ cs = sign ++ body ∧
      (readWord? neg (body.map Char.toLower) = some t ∨
        ∃ d, readDecimal? body = some d ∧ t = .decimal neg d) := by
  obtain ⟨sign, hsign, hcs⟩ := exists_sign cs
  refine ⟨sign, _, _, hsign, hcs, ?_⟩
  rcases Option.or_eq_some_iff.1 h with hword | ⟨-, hdecimal⟩
  · exact Or.inl hword
  · obtain ⟨d, hread, rfl⟩ := Option.map_eq_some_iff.1 hdecimal
    exact Or.inr ⟨d, hread, rfl⟩

/-- The float reader finds a decimal exactly in the texts of digits. -/
theorem readFloatText_decimal_iff {cs : List Char} {neg : Bool} {q : ℚ} :
    (∃ d, readFloatText? cs = some (.decimal neg d) ∧ withSign neg d.value = q) ↔
      Denotes cs neg q := by
  constructor
  · rintro ⟨d, h, rfl⟩
    obtain ⟨sign, body, neg', hsign, rfl, hword | ⟨d', hread, heq⟩⟩ := readFloatText_cases h
    · exact absurd hword readWord_ne_decimal
    · cases heq
      exact .mk hsign (magnitude_of_readDecimal hread)
  · rintro ⟨isSign, magnitude⟩
    obtain ⟨d, hread, rfl⟩ := readDecimal_of_magnitude magnitude
    refine ⟨d, ?_, rfl⟩
    rw [readFloatText_append isSign magnitude.noLeadingSign, magnitude.readWord, hread]
    rfl

/-- The float reader finds an infinity exactly in the words for one. -/
theorem readFloatText_infinity_iff {cs : List Char} {neg : Bool} :
    readFloatText? cs = some (.infinity neg) ↔ SpellsInfinity cs neg := by
  constructor
  · intro h
    obtain ⟨sign, body, neg', hsign, rfl, hword | ⟨d, -, heq⟩⟩ := readFloatText_cases h
    · obtain ⟨rfl, isWord⟩ := readWord_eq_infinity_iff.1 hword
      exact .mk hsign isWord
    · cases heq
  · rintro ⟨isSign, isWord⟩
    have hbody := isWord.elim (noLeadingSign_of_spellsWord inf_isLower)
      (noLeadingSign_of_spellsWord infinity_isLower)
    rw [readFloatText_append isSign hbody, readWord_eq_infinity_iff.2 ⟨rfl, isWord⟩]
    rfl

/-- The float reader finds no number exactly in the words for it. -/
theorem readFloatText_nan_iff {cs : List Char} :
    readFloatText? cs = some .nan ↔ SpellsNan cs := by
  constructor
  · intro h
    obtain ⟨sign, body, neg, hsign, rfl, hword | ⟨d, -, heq⟩⟩ := readFloatText_cases h
    · exact .mk hsign (readWord_eq_nan_iff.1 hword)
    · cases heq
  · rintro ⟨isSign, isWord⟩
    rw [readFloatText_append isSign (noLeadingSign_of_spellsWord nan_isLower isWord),
      readWord_eq_nan_iff.2 isWord]
    rfl

/-- What the float reader refuses is not in the syntax. -/
theorem readFloatText_eq_none_iff {cs : List Char} :
    readFloatText? cs = none ↔ ¬ IsFloatText cs := by
  constructor
  · rintro h (⟨neg, q, hdenotes⟩ | ⟨neg, hinfinity⟩ | hnan)
    · obtain ⟨d, hread, -⟩ := readFloatText_decimal_iff.2 hdenotes
      cases h.symm.trans hread
    · cases h.symm.trans (readFloatText_infinity_iff.2 hinfinity)
    · cases h.symm.trans (readFloatText_nan_iff.2 hnan)
  · intro h
    cases hread : readFloatText? cs with
    | none => rfl
    | some t =>
      refine absurd ?_ h
      cases t with
      | decimal neg d => exact Or.inl ⟨neg, _, readFloatText_decimal_iff.1 ⟨d, hread, rfl⟩⟩
      | infinity neg => exact Or.inr (Or.inl ⟨neg, readFloatText_infinity_iff.1 hread⟩)
      | nan => exact Or.inr (Or.inr (readFloatText_nan_iff.1 hread))

/-- A text of digits denotes one rational only, and has one sign. -/
theorem Denotes.unique {cs : List Char} {neg other : Bool} {q r : ℚ} (hq : Denotes cs neg q)
    (hr : Denotes cs other r) : neg = other ∧ q = r := by
  obtain ⟨d, hread, rfl⟩ := readFloatText_decimal_iff.2 hq
  obtain ⟨d', hread', rfl⟩ := readFloatText_decimal_iff.2 hr
  cases hread.symm.trans hread'
  exact ⟨rfl, rfl⟩

/-- An integer text is a text of digits, too, and denotes the integer. -/
theorem IntegerDenotes.exists_denotes {cs : List Char} {n : Int} (h : IntegerDenotes cs n) :
    ∃ neg, Denotes cs neg n := by
  cases h with
  | @mk sign digits neg isSign isDigits =>
    have hmk := Denotes.mk isSign (.mk (.integral isDigits) .absent)
    rw [List.append_nil] at hmk
    refine ⟨neg, ?_⟩
    cases neg with
    | false => simpa [Decimal.value] using hmk
    | true => simpa [Decimal.value] using hmk

end FloatSyntax

end JsonTree
