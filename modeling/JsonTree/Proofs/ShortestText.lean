import JsonTree.Proofs.CanonicalText
import JsonTree.Proofs.FewestDigits
import Mathlib.Data.List.DropRight

/-!
# Canonical texts are shortest

The canonical text of a finite value shows the digits of its shortest decimal: the fewest digits that
read back, and the nearest ones of that many. No zero is written that the layout does not need, and
the layout goes by comparison of the value with the values nearest to 10^-6 and 10^21.

- `IsNumeral.Plain`, `IsNumeral.Scientific`: the two layouts, as sets of texts.
- `IsNumeral.significantDigits`: the digits of a text that count.
- `Decimal.IsShortest`: no decimal that reads back has fewer digits, and none of as many is nearer.
- `Finite64.le_leadingExp_iff`: the thresholds of the layouts as comparisons of values.
- `Finite64.canonicalText_shortest`: the text of a number that is made of a finite value.
-/

namespace JsonTree

open Binary64 IsNumeral

/-! ## Layouts -/

namespace IsNumeral

/-- An optional fraction that does not end in a zero. -/
inductive TrimmedFraction : List Char → Prop where
  | absent : TrimmedFraction []
  | present {cs : List Char} (digits : Digits cs) (last : cs.getLast? ≠ some '0') :
      TrimmedFraction ('.' :: cs)

/-- A plain decimal. -/
inductive Plain : List Char → Prop where
  | mk {whole fraction : List Char} (isWhole : Whole whole)
      (isFraction : TrimmedFraction fraction) : Plain (whole ++ fraction)

/-- One digit, an optional fraction, and an exponent with its sign and without leading zeros. -/
inductive Scientific : List Char → Prop where
  | mk {lead sign first : Char} {fraction rest : List Char} (isDigit : lead.isDigit)
      (nonzero : lead ≠ '0') (isFraction : TrimmedFraction fraction)
      (isSign : sign = '+' ∨ sign = '-') (isExponent : Digits (first :: rest))
      (unpadded : first ≠ '0') : Scientific (lead :: (fraction ++ 'e' :: sign :: first :: rest))

/-- The digits of the mantissa, without the zeros at its ends. -/
def significantDigits (cs : List Char) : List Char :=
  (((cs.takeWhile (· != 'e')).filter Char.isDigit).dropWhile (· == '0')).rdropWhile (· == '0')

/-- Digits hold no exponent mark. -/
theorem mark_not_mem_of_digits {cs : List Char} (h : ∀ c ∈ cs, c.isDigit) : 'e' ∉ cs :=
  fun hmem => absurd (h 'e' hmem) (by decide)

theorem TrimmedFraction.mark_not_mem {cs : List Char} (h : TrimmedFraction cs) : 'e' ∉ cs := by
  cases h with
  | absent => exact List.not_mem_nil
  | present digits last =>
    rw [List.mem_cons, not_or]
    exact ⟨by decide, mark_not_mem_of_digits digits.2⟩

/-- A plain text holds no exponent mark. -/
theorem Plain.mark_not_mem {cs : List Char} (h : Plain cs) : 'e' ∉ cs := by
  cases h with
  | mk isWhole isFraction =>
    rw [List.mem_append, not_or]
    exact ⟨mark_not_mem_of_digits isWhole.digits.2, isFraction.mark_not_mem⟩

/-- A scientific text holds an exponent mark, so no text is both. -/
theorem Scientific.mark_mem {cs : List Char} (h : Scientific cs) : 'e' ∈ cs := by
  cases h with
  | mk => simp

/-- What stands before the exponent mark is found by looking for it. -/
theorem takeWhile_mark {cs rest : List Char} (h : 'e' ∉ cs) :
    (cs ++ 'e' :: rest).takeWhile (· != 'e') = cs := by
  rw [List.takeWhile_append_of_pos, List.takeWhile_cons_of_neg (by decide), List.append_nil]
  intro c hc
  exact bne_iff_ne.2 fun heq => h (heq ▸ hc)

end IsNumeral

namespace Decimal

variable {d : Decimal} {rank : Nat}

/-! ## The digits that a layout shows -/

/-- A coefficient that does not end in a zero is not zero. -/
theorem coeff_ne_zero_of_mod (h : d.coeff % 10 ≠ 0) : d.coeff ≠ 0 := by
  intro hzero
  exact h (by rw [hzero])

/-- The last digit is the coefficient modulo ten. -/
theorem digits_eq_append (d : Decimal) :
    ∃ cs, d.digits = cs ++ [(d.coeff % 10).digitChar] := by
  rw [digits, Nat.toDigits_eq_if (by decide)]
  split
  · rename_i hlt
    exact ⟨[], by rw [Nat.mod_eq_of_lt hlt, List.nil_append]⟩
  · exact ⟨_, rfl⟩

theorem digitChar_ne_zero {n : Nat} (h : n % 10 ≠ 0) : (n % 10).digitChar ≠ '0' := by
  have hdigit : ∀ m < 10, m ≠ 0 → m.digitChar ≠ '0' := by decide
  exact hdigit _ (Nat.mod_lt n (by decide)) h

/-- The last digit is the remainder by ten. -/
theorem getLast_digits_ne_zero (h : d.coeff % 10 ≠ 0) : d.digits.getLast? ≠ some '0' := by
  obtain ⟨cs, hcs⟩ := d.digits_eq_append
  rw [hcs, List.getLast?_concat]
  exact fun heq => digitChar_ne_zero h (Option.some.inj heq)

/-- A text that shows the digits, and zeros before or behind them, has the digits as its significant
ones. -/
theorem significantDigits_eq (h : d.coeff % 10 ≠ 0) {cs : List Char} {i j : Nat}
    (hcs : (cs.takeWhile (· != 'e')).filter Char.isDigit
      = List.replicate i '0' ++ (d.digits ++ List.replicate j '0')) :
    significantDigits cs = d.digits := by
  have hcoeff := coeff_ne_zero_of_mod h
  have hzeros : ∀ k, ∀ c ∈ List.replicate k '0', (c == '0') = true := by
    intro k c hc
    rw [List.eq_of_mem_replicate hc]
    rfl
  obtain ⟨c, tail, hfirst, -⟩ := d.digits_eq_cons
  obtain ⟨init, hlast⟩ := d.digits_eq_append
  have hc : ¬ (c == '0') = true := fun heq =>
    head_toDigits_ne_zero hcoeff c tail hfirst (beq_iff_eq.1 heq)
  -- a decimal starts and ends with a digit that is no zero, so both trimmings stop there
  have hdrop : (d.digits ++ List.replicate j '0').dropWhile (· == '0')
      = d.digits ++ List.replicate j '0' := by
    rw [hfirst, List.cons_append, List.dropWhile_cons_of_neg (p := (· == '0')) hc]
  have hrdrop : (d.digits ++ List.replicate j '0').rdropWhile (· == '0') = d.digits := by
    rw [List.rdropWhile, List.reverse_append, List.reverse_replicate,
      List.dropWhile_append_of_pos (hzeros j), hlast, List.reverse_append, List.reverse_singleton,
      List.singleton_append, List.dropWhile_cons_of_neg]
    · rw [List.reverse_cons, List.reverse_reverse]
    · exact fun heq => digitChar_ne_zero h (beq_iff_eq.1 heq)
  rw [significantDigits, hcs, List.dropWhile_append_of_pos (hzeros i), hdrop, hrdrop]

theorem filter_digits (d : Decimal) : d.digits.filter Char.isDigit = d.digits :=
  List.filter_eq_self.2 d.whole_digits.digits.2

theorem filter_zeros (k : Nat) :
    (List.replicate k '0').filter Char.isDigit = List.replicate k '0' :=
  List.filter_eq_self.2 fun _ hc => isDigit_of_mem_zeros hc

/-! ## The plain layout -/

/-- Digits that do not end in a zero leave none at the end of a fraction. -/
theorem plain_spellPlain (h : d.coeff % 10 ≠ 0) : Plain (d.spellPlain false) := by
  have hcoeff := coeff_ne_zero_of_mod h
  have hlen : d.leadingExp = d.exp + d.digits.length - 1 := rfl
  have hlast := getLast_digits_ne_zero h
  unfold spellPlain
  split
  · exact .mk (whole_digits_zeros (Or.inl hcoeff)) .absent
  · split
    · have hk : d.leadingExp.toNat + 1 < d.digits.length := by omega
      refine .mk (whole_take_digits hcoeff _) (.present (digits_drop_digits hk) ?_)
      rwa [List.getLast?_drop, if_neg (by omega)]
    · show Plain (['0'] ++ '.' :: (List.replicate (-d.leadingExp - 1).toNat '0' ++ d.digits))
      refine .mk .zero (.present (d.digits_zeros_digits _) ?_)
      obtain ⟨init, hdigits⟩ := d.digits_eq_append
      rw [hdigits] at hlast ⊢
      rw [← List.append_assoc, List.getLast?_concat]
      rwa [List.getLast?_concat] at hlast

/-- Leading zeros and the zeros that fill up an integer are not significant. -/
theorem significantDigits_spellPlain (h : d.coeff % 10 ≠ 0) :
    significantDigits (d.spellPlain false) = d.digits := by
  have htake : (d.spellPlain false).takeWhile (· != 'e') = d.spellPlain false :=
    List.takeWhile_eq_self_iff.2 fun c hc =>
      bne_iff_ne.2 fun heq => (plain_spellPlain h).mark_not_mem (heq ▸ hc)
  have hfilter : ∃ i j, (d.spellPlain false).filter Char.isDigit
      = List.replicate i '0' ++ (d.digits ++ List.replicate j '0') := by
    unfold spellPlain
    -- the layout is an integer filled up with zeros, digits around a point, or zeros before them
    split
    · refine ⟨0, d.exp.toNat, ?_⟩
      rw [List.filter_append, List.filter_append, filter_digits, filter_zeros]
      exact List.append_nil _
    · split
      · refine ⟨0, 0, ?_⟩
        rw [List.filter_append, List.filter_cons_of_neg (by decide), ← List.filter_append,
          List.take_append_drop, filter_digits]
        exact (List.append_nil _).symm
      · refine ⟨(-d.leadingExp - 1).toNat + 1, 0, ?_⟩
        rw [List.cons_append, List.cons_append, List.filter_cons_of_pos (by decide),
          List.filter_cons_of_neg (by decide), List.filter_append, filter_zeros, filter_digits]
        simp [List.replicate_succ]
  obtain ⟨i, j, hfilter⟩ := hfilter
  exact significantDigits_eq h (htake ▸ hfilter)

/-! ## The layout with an exponent -/

/-- One digit, the others behind a point, and the exponent. -/
theorem spellScientific_eq (h : d.coeff % 10 ≠ 0) :
    ∃ c fraction, c.isDigit ∧ c ≠ '0' ∧ TrimmedFraction fraction ∧
      (c :: fraction).filter Char.isDigit = d.digits ∧
      d.spellScientific = c :: (fraction ++ spellExponent d.leadingExp) := by
  have hcoeff := coeff_ne_zero_of_mod h
  have hlast := getLast_digits_ne_zero h
  have hfilter := d.filter_digits
  obtain ⟨c, cs, hdigits, hc, hcs⟩ := d.digits_eq_cons
  have hne := head_toDigits_ne_zero hcoeff c cs hdigits
  rw [spellScientific]
  rw [hdigits] at hlast hfilter ⊢
  cases cs with
  | nil => exact ⟨c, [], hc, hne, .absent, hfilter, rfl⟩
  | cons c' cs =>
    refine ⟨c, '.' :: c' :: cs, hc, hne, .present ⟨List.cons_ne_nil _ _, hcs⟩ ?_, ?_, rfl⟩
    · rwa [List.getLast?_cons_cons] at hlast
    · rw [List.filter_cons_of_pos hc] at hfilter ⊢
      rwa [List.filter_cons_of_neg (by decide)]

/-- Away from the exponent zero, the exponent has a sign and no leading zero. -/
theorem scientific_spellScientific (h : d.coeff % 10 ≠ 0) (hlead : d.leadingExp ≠ 0) :
    Scientific d.spellScientific := by
  obtain ⟨c, fraction, hc, hne, hfraction, -, heq⟩ := spellScientific_eq h
  obtain ⟨first, rest, hexp, -⟩ := digits_eq_cons ⟨d.leadingExp.natAbs, 0⟩
  have hdigits : Nat.toDigits 10 d.leadingExp.natAbs = first :: rest := hexp
  have hfirst := head_toDigits_ne_zero (Int.natAbs_ne_zero.2 hlead) first rest hdigits
  have hsign : (if d.leadingExp < 0 then '-' else '+') = '+' ∨
      (if d.leadingExp < 0 then '-' else '+') = '-' := (ite_eq_or_eq _ _ _).symm
  rw [heq, spellExponent, hdigits]
  exact .mk hc hne hfraction hsign (hdigits ▸ digits_toDigits _) hfirst

/-- The point between the digits of a scientific text is no digit. -/
theorem significantDigits_spellScientific (h : d.coeff % 10 ≠ 0) :
    significantDigits d.spellScientific = d.digits := by
  obtain ⟨c, fraction, hc, -, hfraction, hfilter, heq⟩ := spellScientific_eq h
  have hmark : 'e' ∉ c :: fraction := by
    rw [List.mem_cons, not_or]
    exact ⟨fun hce => absurd (hce ▸ hc) (by decide), hfraction.mark_not_mem⟩
  refine significantDigits_eq (i := 0) (j := 0) h ?_
  rw [heq, spellExponent, ← List.cons_append, takeWhile_mark hmark, hfilter]
  exact (List.append_nil _).symm

/-! ## Shortest decimals -/

/-- The decimal reads back as `x`, no decimal that does has fewer digits, and none with as many lies
nearer. -/
structure IsShortest (d : Decimal) (x : Finite64) : Prop where
  reads : d.toBinary64 x.neg = .finite x
  fewest : ∀ e : Decimal, e.toBinary64 x.neg = .finite x → d.digits.length ≤ e.digits.length
  nearest : ∀ e : Decimal, e.toBinary64 x.neg = .finite x → e.digits.length = d.digits.length →
    |withSign x.neg d.value - x.value| ≤ |withSign x.neg e.value - x.value|

end Decimal

namespace Finite64

/-- The search finds a decimal that reads back, with the fewest digits, and the nearest of those. -/
theorem isShortest_shortest {x : Finite64} (hx : x.value ≠ 0) :
    (Decimal.shortest x.rank).IsShortest x := by
  have hrank := rank_ne_zero hx
  have hreads : ∀ {e : Decimal}, e.toBinary64 x.neg = .finite x → e.nearestRank = x.rank :=
    fun he => (ofRank_eq_finite he).2.symm
  refine ⟨Decimal.toBinary64_shortest x, fun e he => ?_, fun e he hlen => ?_⟩
  · exact Decimal.length_digits_shortest_le x.rank_lt hrank (hreads he)
  · rw [value_eq, abs_withSign_sub, abs_withSign_sub]
    exact Decimal.abs_shortest_sub_le x.rank_lt hrank (hreads he) hlen

/-! ## Thresholds -/

/-- The value nearest to a power of ten. -/
def powerOfTen (k : Int) (h : Decimal.nearestRank ⟨1, k⟩ < infinityRank) : Finite64 :=
  ⟨false, Decimal.nearestRank ⟨1, k⟩, h⟩

/-- The value nearest to 10^-6. -/
abbrev millionth : Finite64 := powerOfTen (-6) (by decide +kernel)

/-- The value nearest to 10^21. -/
abbrev sextillion : Finite64 := powerOfTen 21 (by decide +kernel)

example : Binary64.ofText "1e-6" = .finite millionth := by decide +kernel

example : Binary64.ofText "1e21" = .finite sextillion := by decide +kernel

/-- Where the leading digit stands, by comparison with the value nearest to a power of ten. -/
theorem le_leadingExp_iff {x : Finite64} (hx : x.value ≠ 0) (k : Int)
    (h : Decimal.nearestRank ⟨1, k⟩ < infinityRank) :
    k ≤ (Decimal.shortest x.rank).leadingExp ↔ (powerOfTen k h).value ≤ |x.value| := by
  rw [Decimal.le_leadingExp_shortest_iff x.rank_lt (rank_ne_zero hx), abs_value,
    ← magnitude_strictMono.le_iff_le]
  rfl

/-- The other side of the threshold. -/
theorem leadingExp_lt_iff {x : Finite64} (hx : x.value ≠ 0) (k : Int)
    (h : Decimal.nearestRank ⟨1, k⟩ < infinityRank) :
    (Decimal.shortest x.rank).leadingExp < k ↔ |x.value| < (powerOfTen k h).value := by
  rw [← not_le, ← not_le, le_leadingExp_iff hx]

/-! ## Canonical texts -/

/-- A minus shows exactly for the values below zero. -/
theorem value_neg_iff (x : Finite64) : x.value < 0 ↔ (x.shown .canonical).neg = true := by
  have hmagnitude := magnitude_nonneg x.rank
  have hshown : (x.shown .canonical).neg = (x.neg && x.rank != 0) := rfl
  rw [hshown, Bool.and_eq_true, bne_iff_ne, ne_eq, ← value_eq_zero_iff, value_eq]
  cases x.neg with
  | false => exact iff_of_false (not_lt.2 hmagnitude) fun h => Bool.false_ne_true h.1
  | true =>
    rw [withSign_true, neg_lt_zero, neg_eq_zero]
    exact ⟨fun h => ⟨rfl, h.ne'⟩, fun h => lt_of_le_of_ne hmagnitude (Ne.symm h.2)⟩

/-- The layout changes where the magnitude passes a millionth and ten to the twenty-first. -/
theorem plain_spell_iff {x : Finite64} (hx : x.value ≠ 0) :
    (Plain ((Decimal.shortest x.rank).spell .canonical) ↔
      millionth.value ≤ |x.value| ∧ |x.value| < sextillion.value) ∧
    (Scientific ((Decimal.shortest x.rank).spell .canonical) ↔
      ¬ (millionth.value ≤ |x.value| ∧ |x.value| < sextillion.value)) := by
  have hrank := rank_ne_zero hx
  have hlast := Decimal.coeff_shortest_mod_ten x.rank_lt hrank
  rw [← le_leadingExp_iff hx, ← leadingExp_lt_iff hx]
  -- the layout depends on the leading exponent alone
  generalize Decimal.shortest x.rank = d at *
  unfold Decimal.spell
  split
  · rename_i hplain
    have hshape := Decimal.plain_spellPlain hlast
    exact ⟨iff_of_true hshape hplain,
      iff_of_false (fun h => hshape.mark_not_mem h.mark_mem) (not_not.2 hplain)⟩
  · rename_i hplain
    have hlead : d.leadingExp ≠ 0 := by
      intro hzero
      rw [hzero] at hplain
      exact hplain (by decide)
    have hshape := Decimal.scientific_spellScientific hlast hlead
    exact ⟨iff_of_false (fun h => h.mark_not_mem hshape.mark_mem) hplain,
      iff_of_true hshape hplain⟩

/-- Whichever layout is chosen, the digits are those of the search. -/
theorem significantDigits_spell {x : Finite64} (hx : x.value ≠ 0) :
    significantDigits ((Decimal.shortest x.rank).spell .canonical)
      = (Decimal.shortest x.rank).digits := by
  have hrank := rank_ne_zero hx
  have hlast := Decimal.coeff_shortest_mod_ten x.rank_lt hrank
  unfold Decimal.spell
  split
  · exact Decimal.significantDigits_spellPlain hlast
  · exact Decimal.significantDigits_spellScientific hlast

/-- The canonical text of a finite value, which a number that is made of the value holds. Both zeros
are `0`. Any other value shows the digits of a shortest decimal, which is what the text denotes, with
a minus for the values below zero: plain from the value nearest to 10^-6 up to the one nearest to
10^21, and else with an exponent. -/
theorem canonicalText_shortest (x : Finite64) :
    (∀ p, Number.ofBinary64 p (.finite x) = .ok ⟨x.canonicalText⟩) ∧
    (x.value = 0 → x.canonicalText = "0") ∧
    (x.value ≠ 0 → ∃ (d : Decimal) (body : List Char), d.IsShortest x ∧
      x.canonicalText = String.ofList (if x.value < 0 then '-' :: body else body) ∧
      Magnitude body d.value ∧ significantDigits body = d.digits ∧
      (Plain body ↔ millionth.value ≤ |x.value| ∧ |x.value| < sextillion.value) ∧
      (Scientific body ↔ ¬ (millionth.value ≤ |x.value| ∧ |x.value| < sextillion.value))) := by
  refine ⟨fun p => Number.ofBinary64_finite p x, fun hzero => ?_, fun hx => ?_⟩
  · obtain ⟨neg, rank, hrank⟩ := x
    obtain rfl : rank = 0 := value_eq_zero_iff.1 hzero
    exact canonicalText_zero neg
  · refine ⟨_, _, isShortest_shortest hx, ?_, Decimal.magnitude_spell_shortest .canonical x.rank_lt,
      significantDigits_spell hx, plain_spell_iff hx⟩
    rw [canonicalText, spell_eq]
    simp only [value_neg_iff]

/-- The negative zero, and the negative of the second magnitude, two units, whose nearest decimal of
one digit is ten times a power of ten. -/
theorem canonicalText_shortest_at_two :
    (zero true).value = 0 ∧ (zero true).canonicalText = "0" ∧
    (⟨true, 2, by decide⟩ : Finite64).value ≠ 0 ∧
    (⟨true, 2, by decide⟩ : Finite64).canonicalText = "-1e-323" ∧
    ∃ d : Decimal, d.IsShortest ⟨true, 2, by decide⟩ ∧ d.digits = ['1'] ∧
      Magnitude "1e-323".toList d.value := by
  have hzero : (zero true).value = 0 := value_eq_zero_iff.2 rfl
  have hne : (⟨true, 2, by decide⟩ : Finite64).value ≠ 0 := by
    rw [ne_eq, value_eq_zero_iff]
    decide
  have htext : (⟨true, 2, by decide⟩ : Finite64).canonicalText = "-1e-323" := by decide +kernel
  obtain ⟨d, body, hshortest, hbody, hdenotes, hdigits, -⟩ :=
    (canonicalText_shortest ⟨true, 2, by decide⟩).2.2 hne
  have hneg : (⟨true, 2, by decide⟩ : Finite64).value < 0 := (value_neg_iff _).2 (by decide)
  have hchars : body = "1e-323".toList := by
    rw [htext, if_pos hneg] at hbody
    have hlist : '-' :: "1e-323".toList = '-' :: body := by
      rw [← String.toList_ofList (l := '-' :: body), ← hbody]
      decide
    exact (List.cons.inj hlist).2.symm
  subst hchars
  exact ⟨hzero, (canonicalText_shortest (zero true)).2.1 hzero, hne, htext, d, hshortest,
    hdigits.symm.trans (by decide), hdenotes⟩

end Finite64

end JsonTree
