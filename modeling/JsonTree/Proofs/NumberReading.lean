import JsonTree.Proofs.FloatReading
import JsonTree.Proofs.MachineText

/-!
# The machine number of any text

A number may hold any text. Three readers are tried on it: signed integers, unsigned integers and
floats. Together they give every text one datum: an integer if the text denotes one that fits, null
if the text is no float text, and else a finite float.

- `Datum.saturated`: the datum of a float, an infinity as the largest finite value.
- `Number.datum_cases`: a text is an integer that fits, or else its datum is that of its float.
- `Number.datum_eq_null_iff`: the texts without a machine number.
- `Number.datum_of_text`: the datum of any text.
-/

namespace JsonTree

open FloatSyntax

/-- The datum of a float: the largest finite value of its sign for an infinity, null for no
number. -/
def Datum.saturated : Binary64 → Datum
  | .finite x => .num (.float x)
  | .nonFinite (.infinity neg) => .num (.float (.extreme neg))
  | .nonFinite .nan => .null

theorem Datum.saturated_ne_int (z : Binary64) (k : MachineInt) :
    saturated z ≠ .num (.int k) := by
  match z with
  | .finite _ => exact nofun
  | .nonFinite (.infinity _) => exact nofun
  | .nonFinite .nan => exact nofun

theorem Datum.saturated_eq_null_iff (z : Binary64) : saturated z = .null ↔ z = .nan := by
  match z with
  | .finite _ => exact iff_of_false nofun nofun
  | .nonFinite (.infinity _) => exact iff_of_false nofun nofun
  | .nonFinite .nan => exact iff_of_true rfl rfl

namespace Number

variable {p : Policy}

/-- A text is an integer that fits, or else its datum is that of its float. -/
theorem datum_cases (n : Number p) :
    (∃ k : MachineInt, IntegerDenotes n.text.toList k.val ∧ n.datum = .num (.int k)) ∨
      ((∀ k : MachineInt, ¬ IntegerDenotes n.text.toList k.val) ∧
        n.datum = Datum.saturated n.toBinary64) := by
  -- trying signed and then unsigned is one attempt at an integer of either range
  cases hinteger : (readInteger? n.text.toList).bind MachineInt.ofInt? with
  | some k =>
    left
    obtain ⟨i, hread, hk⟩ := Option.bind_eq_some_iff.1 hinteger
    refine ⟨k, ?_, ?_⟩
    · rw [MachineInt.val_of_ofInt hk, ← readInteger_eq_some_iff]
      exact hread
    · unfold datum reading
      rw [signed_or_unsigned, hinteger]
      rfl
  | none =>
    right
    constructor
    · intro k hdenotes
      rw [readInteger_eq_some_iff.2 hdenotes, Option.bind_some, k.ofInt_val] at hinteger
      cases hinteger
    · unfold datum reading
      rw [signed_or_unsigned, hinteger]
      match n.toBinary64 with
      | .finite _ => rfl
      | .nonFinite (.infinity _) => rfl
      | .nonFinite .nan => rfl

/-- A number is an integer of the datum exactly if its text denotes that integer. -/
theorem datum_eq_int_iff (n : Number p) (k : MachineInt) :
    n.datum = .num (.int k) ↔ IntegerDenotes n.text.toList k.val := by
  rcases n.datum_cases with ⟨j, hdenotes, hdatum⟩ | ⟨hnone, hdatum⟩
  · rw [hdatum]
    constructor
    · rintro ⟨⟩
      exact hdenotes
    · intro hk
      have hval : j.val = k.val := Option.some.inj
        ((readInteger_eq_some_iff.2 hdenotes).symm.trans (readInteger_eq_some_iff.2 hk))
      rw [MachineInt.eq_of_val_eq hval]
  · rw [hdatum]
    exact iff_of_false (Datum.saturated_ne_int _ k) (hnone k)

/-- The texts without a machine number. -/
theorem datum_eq_null_iff (n : Number p) :
    n.datum = .null ↔ ¬ IsFloatText n.text.toList ∨ SpellsNan n.text.toList := by
  have hnan := @Binary64.ofText_eq_nan_iff n.text
  rw [← hnan]
  rcases n.datum_cases with ⟨k, hdenotes, hdatum⟩ | ⟨-, hdatum⟩
  · rw [hdatum]
    refine iff_of_false nofun fun h => ?_
    obtain ⟨neg, hq⟩ := hdenotes.exists_denotes
    obtain ⟨d, htext, -⟩ := Binary64.ofText_of_denotes hq
    exact Binary64.ofRank_ne_nan neg _ (htext.symm.trans h)
  · rw [hdatum]
    exact Datum.saturated_eq_null_iff _

theorem datum_of_not_integer {n : Number p} (h : ∀ k : MachineInt, n.datum ≠ .num (.int k)) :
    n.datum = Datum.saturated n.toBinary64 := by
  rcases n.datum_cases with ⟨k, -, hdatum⟩ | ⟨-, hdatum⟩
  · exact absurd hdatum (h k)
  · exact hdatum

/-- What a text denotes is its datum. An integer text gives the integer if that fits 64 bits, signed
or unsigned, and no other text gives an integer. A text gives null exactly if it is no float text or
the word for no number. Any other text gives a finite float: the one closest to the rational `q` that
it denotes, of two the even one, with the sign of the text also on a zero; and the largest finite
value of its sign, if `q` lies past the finite range or the text is a word for an infinity. A text
that keeps the rules for safe numbers gives an integer, or the float that it reads as. -/
theorem datum_of_text (n : Number p) :
    (∀ i : Int, (∃ k : MachineInt, k.val = i ∧ n.datum = .num (.int k)) ↔
      IntegerDenotes n.text.toList i ∧ -2 ^ 63 ≤ i ∧ i ≤ 2 ^ 64 - 1) ∧
    (n.datum = .null ↔ ¬ IsFloatText n.text.toList ∨ SpellsNan n.text.toList) ∧
    ((∀ k : MachineInt, n.datum ≠ .num (.int k)) →
      (∀ neg q, Denotes n.text.toList neg q →
        ∃ x : Finite64, n.datum = .num (.float x) ∧ x.neg = neg ∧
          (|q| < 2 ^ 1024 - 2 ^ 970 → x.IsClosest q) ∧
          (2 ^ 1024 - 2 ^ 970 ≤ |q| → x = .extreme neg)) ∧
      ∀ neg, SpellsInfinity n.text.toList neg → n.datum = .num (.float (.extreme neg))) ∧
    (n.isWellFormed = true → (∃ k, n.datum = .num (.int k)) ∨
      ∃ x, n.datum = .num (.float x) ∧ n.toBinary64 = .finite x) := by
  refine ⟨?_, n.datum_eq_null_iff, fun hnone => ⟨?_, ?_⟩, ?_⟩
  · intro i
    constructor
    · rintro ⟨k, rfl, hdatum⟩
      have hlower := k.lower
      have hupper := k.upper
      exact ⟨(n.datum_eq_int_iff k).1 hdatum, by omega, by omega⟩
    · rintro ⟨hdenotes, hlower, hupper⟩
      exact ⟨⟨i, by omega, by omega⟩, rfl, (n.datum_eq_int_iff _).2 hdenotes⟩
  · intro neg q hq
    obtain ⟨d, htext, rfl⟩ := Binary64.ofText_of_denotes hq
    have hrounds := d.rounds_toBinary64 neg
    rw [datum_of_not_integer hnone, toBinary64, htext]
    -- past the finite range the reading is an infinity, which the datum replaces by an extreme
    rcases lt_or_ge |withSign neg d.value| (2 ^ 1024 - 2 ^ 970) with hrange | hrange
    · obtain ⟨x, hx, hneg, hclosest⟩ := hrounds.finite hrange
      exact ⟨x, by rw [hx, Datum.saturated], hneg, fun _ => hclosest,
        fun h => absurd hrange (not_lt.2 h)⟩
    · exact ⟨.extreme neg, by rw [hrounds.infinite hrange, Datum.saturated], rfl,
        fun h => absurd h (not_lt.2 hrange), fun _ => rfl⟩
  · intro neg hword
    rw [datum_of_not_integer hnone, toBinary64, Binary64.ofText_of_spellsInfinity hword,
      Datum.saturated]
  · intro hwell
    obtain ⟨-, x, hx⟩ := (Numeral.check_eq_ok_iff n.text).1 (n.isWellFormed_iff.1 hwell)
    rcases n.datum_cases with ⟨k, -, hdatum⟩ | ⟨-, hdatum⟩
    · exact Or.inl ⟨k, hdatum⟩
    · refine Or.inr ⟨x, ?_, hx⟩
      rw [hdatum, toBinary64, hx, Datum.saturated]

/-- The largest integer that fits, with a plus and zeros in front; the integer below the smallest one
that fits, half way between two floats; a word; half an exponent; and a safe number. -/
theorem datum_of_text_at_limits :
    (IntegerDenotes "+0018446744073709551615".toList (2 ^ 64 - 1) ∧
        ∃ k : MachineInt, k.val = 2 ^ 64 - 1 ∧
          (⟨"+0018446744073709551615"⟩ : Number .unchecked).datum = .num (.int k)) ∧
      ((∀ k : MachineInt, (⟨"-9223372036854775809"⟩ : Number .safe).datum ≠ .num (.int k)) ∧
        Denotes "-9223372036854775809".toList true (-9223372036854775809) ∧
        ∃ x : Finite64, (⟨"-9223372036854775809"⟩ : Number .safe).datum = .num (.float x) ∧
          x.neg = true ∧ x.IsClosest (-9223372036854775809)) ∧
      ((∀ k : MachineInt, (⟨"-INF"⟩ : Number .unchecked).datum ≠ .num (.int k)) ∧
        SpellsInfinity "-INF".toList true ∧
        (⟨"-INF"⟩ : Number .unchecked).datum = .num (.float (.extreme true))) ∧
      (¬ IsFloatText "1.e".toList ∧ (⟨"1.e"⟩ : Number .unchecked).datum = .null) ∧
      ((⟨"-0.0e7"⟩ : Number .safe).isWellFormed = true ∧
        ((∃ k, (⟨"-0.0e7"⟩ : Number .safe).datum = .num (.int k)) ∨
          ∃ x, (⟨"-0.0e7"⟩ : Number .safe).datum = .num (.float x) ∧
            (⟨"-0.0e7"⟩ : Number .safe).toBinary64 = .finite x)) := by
  have hlargest : IntegerDenotes "+0018446744073709551615".toList (2 ^ 64 - 1) :=
    readInteger_eq_some_iff.1 (by decide +kernel)
  have hfloat : (⟨"-9223372036854775809"⟩ : Number .safe).reading
      = .number (.float ⟨true, 0x43e0000000000000, by decide⟩) := by decide +kernel
  have hnoInt : ∀ k : MachineInt,
      (⟨"-9223372036854775809"⟩ : Number .safe).datum ≠ .num (.int k) := by
    intro k
    rw [datum_of_reading hfloat]
    exact nofun
  have hdenotes : Denotes "-9223372036854775809".toList true (-9223372036854775809) :=
    readFloatText_decimal_iff.1
      ⟨⟨9223372036854775809, 0⟩, by decide +kernel, by norm_num [Decimal.value]⟩
  have hrange : |(-9223372036854775809 : ℚ)| < 2 ^ 128 := by norm_num
  have hword : SpellsInfinity "-INF".toList true := readFloatText_infinity_iff.1 (by decide +kernel)
  have hnoInt' : ∀ k : MachineInt, (⟨"-INF"⟩ : Number .unchecked).datum ≠ .num (.int k) := by
    intro k
    have hnone : readInteger? "-INF".toList = none := by decide +kernel
    rw [Ne, datum_eq_int_iff, ← readInteger_eq_some_iff, hnone]
    exact nofun
  have hrefused : ¬ IsFloatText "1.e".toList := readFloatText_eq_none_iff.1 (by decide +kernel)
  have hwell : (⟨"-0.0e7"⟩ : Number .safe).isWellFormed = true := by decide +kernel
  refine ⟨⟨hlargest, ?_⟩, ⟨hnoInt, hdenotes, ?_⟩, ⟨hnoInt', hword, ?_⟩, ⟨hrefused, ?_⟩, hwell, ?_⟩
  · exact ((datum_of_text _).1 _).2 ⟨hlargest, by decide, by decide⟩
  · obtain ⟨x, hx, hneg, hclosest, -⟩ := ((datum_of_text _).2.2.1 hnoInt).1 true _ hdenotes
    exact ⟨x, hx, hneg, hclosest (hrange.trans Binary64.two_pow_lt_overflowBound)⟩
  · exact ((datum_of_text _).2.2.1 hnoInt').2 true hword
  · exact (datum_of_text _).2.1.2 (Or.inl hrefused)
  · exact (datum_of_text _).2.2.2 hwell

end Number

end JsonTree
