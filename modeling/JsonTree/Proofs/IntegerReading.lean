import JsonTree.Proofs.NumberReaders
import JsonTree.Proofs.NumberReading

/-!
# Integers and their float reading

Three readers look at a number text: for signed integers, for unsigned integers and for floats. The
integer readers accept a sign and digits, in their own range, and the float reader accepts all of
these texts. Where two of the readers find a number, it is one number: the integers are equal, and
the float is the integer rounded, with the sign of the text.

- `FloatSyntax.Denotes.neg_iff`: the sign of a text is a minus in front.
- `Number.signed_eq_some_iff`, `Number.unsigned_eq_some_iff`: what the integer readers find.
- `Number.closest_of_integerDenotes`: the float of an integer text.
- `Number.integer_readings_agree`: the three readers agree, on any text and on the digits of any
  integer.
-/

namespace JsonTree

open FloatSyntax

/-- A text of digits is negative if it begins with a minus. -/
theorem FloatSyntax.Denotes.neg_iff {cs : List Char} {neg : Bool} {q : ℚ} (h : Denotes cs neg q) :
    neg = true ↔ cs.head? = some '-' := by
  obtain ⟨isSign, magnitude⟩ := h
  cases isSign with
  | absent => exact iff_of_false nofun fun hhead => (magnitude.noLeadingSign '-' hhead).1 rfl
  | plus => exact iff_of_false nofun (by simp)
  | minus => exact iff_of_true rfl rfl

theorem head_spellInt (i : Int) : (spellInt i).head? = some '-' ↔ i < 0 := by
  unfold spellInt
  split
  · rename_i hneg
    exact iff_of_true rfl hneg
  · rename_i hneg
    have hsign := noLeadingSign_of_digits (digits_toDigits i.natAbs)
    exact iff_of_false (fun hhead => (hsign '-' hhead).1 rfl) hneg

theorem MachineInt.map_val_ofInt (i : Int) :
    (MachineInt.ofInt? i).map val = if -2 ^ 63 ≤ i ∧ i < 2 ^ 64 then some i else none := by
  unfold ofInt?
  split
  · rename_i hrange
    rw [if_pos (by omega), Option.map_some]
  · rename_i hrange
    rw [if_neg (by omega), Option.map_none]

namespace Number

variable {p : Policy} {n : Number p}

/-! ## The integer readers -/

/-- The signed reader finds the integers of the text below 2^63. -/
theorem signed_eq_some_iff {k : MachineInt} :
    n.signed? = some k ↔ IntegerDenotes n.text.toList k.val ∧ k.val < 2 ^ 63 := by
  rw [← readInteger_eq_some_iff]
  unfold signed?
  constructor
  · intro h
    obtain ⟨i, hread, hk⟩ := Option.bind_eq_some_iff.1 h
    split at hk
    · rename_i hlt
      rw [MachineInt.val_of_ofInt hk]
      exact ⟨hread, hlt⟩
    · cases hk
  · rintro ⟨hread, hlt⟩
    rw [hread, Option.bind_eq_bind, Option.bind_some]
    exact (if_pos hlt).trans k.ofInt_val

/-- The unsigned reader finds the integers of the texts without a minus. -/
theorem unsigned_eq_some_iff {k : MachineInt} :
    n.unsigned? = some k ↔
      IntegerDenotes n.text.toList k.val ∧ n.text.toList.head? ≠ some '-' := by
  rw [← readInteger_eq_some_iff]
  unfold unsigned? readNatural?
  by_cases hminus : n.text.toList.head? = some '-'
  · rw [if_pos hminus]
    exact iff_of_false nofun fun h => h.2 hminus
  · rw [if_neg hminus, and_iff_left hminus]
    constructor
    · intro h
      obtain ⟨i, hread, hk⟩ := Option.bind_eq_some_iff.1 h
      rw [MachineInt.val_of_ofInt hk]
      exact hread
    · intro hread
      rw [hread, Option.bind_eq_bind, Option.bind_some, k.ofInt_val]

/-- What either of the integer readers finds is the integer of the text. -/
theorem integerDenotes_of_read {k : MachineInt} (h : n.signed? = some k ∨ n.unsigned? = some k) :
    IntegerDenotes n.text.toList k.val :=
  h.elim (fun hsigned => (signed_eq_some_iff.1 hsigned).1)
    (fun hunsigned => (unsigned_eq_some_iff.1 hunsigned).1)

theorem signed_ofInt (p : Policy) (i : Int) :
    (ofInt p i).signed?.map MachineInt.val
      = if -2 ^ 63 ≤ i ∧ i < 2 ^ 63 then some i else none := by
  unfold signed? ofInt
  rw [String.toList_ofList, readInteger_spellInt, Option.bind_eq_bind, Option.bind_some]
  split
  · rw [MachineInt.map_val_ofInt]
    congr 1
    exact propext (by omega)
  · rw [if_neg (by omega), Option.map_none]

theorem unsigned_ofInt (p : Policy) (i : Int) :
    (ofInt p i).unsigned?.map MachineInt.val
      = if 0 ≤ i ∧ i < 2 ^ 64 then some i else none := by
  unfold unsigned? readNatural? ofInt
  rw [String.toList_ofList, Option.bind_eq_bind]
  by_cases hneg : i < 0
  · rw [if_pos ((head_spellInt i).2 hneg), Option.bind_none, Option.map_none, if_neg (by omega)]
  · rw [if_neg (mt (head_spellInt i).1 hneg), readInteger_spellInt, Option.bind_some,
      MachineInt.map_val_ofInt]
    congr 1
    exact propext (by omega)

/-! ## The float of an integer -/

/-- The float of an integer text is the integer rounded, with the sign of the text. -/
theorem closest_of_integerDenotes {i : Int} (h : IntegerDenotes n.text.toList i)
    (hrange : |(i : ℚ)| < Binary64.overflowBound) :
    ∃ x : Finite64, n.toBinary64 = .finite x ∧ x.IsClosest i ∧
      (x.neg = true ↔ n.text.toList.head? = some '-') := by
  obtain ⟨neg, hdenotes⟩ := h.exists_denotes
  obtain ⟨d, htext, hvalue⟩ := Binary64.ofText_of_denotes hdenotes
  have hrounds := d.rounds_toBinary64 neg
  rw [← hvalue, ← htext] at hrounds
  obtain ⟨x, hx, rfl, hclosest⟩ := hrounds.finite hrange
  exact ⟨x, hx, hclosest, hdenotes.neg_iff⟩

/-- The digits of a native integer are kept under every policy, and read as the integer rounded. -/
theorem closest_of_nativeInt (p : Policy) {i : Int} (h : NativeInt i) :
    ∃ x : Finite64, (ofInt p i).toBinary64 = .finite x ∧ x.IsClosest i ∧
      (x.neg = true ↔ i < 0) := by
  have hdenotes : IntegerDenotes (ofInt p i).text.toList i := by
    rw [← readInteger_eq_some_iff, ofInt, String.toList_ofList]
    exact readInteger_spellInt i
  obtain ⟨x, hx, hclosest, hneg⟩ := closest_of_integerDenotes hdenotes h.abs_lt_overflowBound
  refine ⟨x, hx, hclosest, hneg.trans ?_⟩
  rw [ofInt, String.toList_ofList]
  exact head_spellInt i

/-! ## Agreement -/

/-- If the text of a number reads as a signed or as an unsigned integer, then its float is finite:
the one closest to that integer, of two the even one, with the sign that the text has. If it reads
as both, the integers are equal. The digits of any integer read as that integer where it is in the
range of the reader, and not at all where it is not; and those of a native integer, of up to 128
bits, keep the rules for safe numbers and read as the float closest to it. -/
theorem integer_readings_agree (p : Policy) :
    (∀ (n : Number p) (k : MachineInt), n.signed? = some k ∨ n.unsigned? = some k →
      ∃ x : Finite64, n.toBinary64 = .finite x ∧ x.IsClosest k.val ∧
        (x.neg = true ↔ n.text.toList.head? = some '-')) ∧
    (∀ (n : Number p) (j k : MachineInt), n.signed? = some j → n.unsigned? = some k → j = k) ∧
    (∀ i : Int,
      (ofInt p i).signed?.map MachineInt.val
        = (if -2 ^ 63 ≤ i ∧ i < 2 ^ 63 then some i else none) ∧
      (ofInt p i).unsigned?.map MachineInt.val
        = if 0 ≤ i ∧ i < 2 ^ 64 then some i else none) ∧
    ∀ i : Int, NativeInt i → Numeral.check (ofInt p i).text = .ok () ∧
      ∃ x : Finite64, (ofInt p i).toBinary64 = .finite x ∧ x.IsClosest i ∧
        (x.neg = true ↔ i < 0) := by
  refine ⟨fun n k h => ?_, fun n j k hj hk => ?_, fun i => ⟨signed_ofInt p i, unsigned_ofInt p i⟩,
    fun i h => ⟨check_spellInt h, closest_of_nativeInt p h⟩⟩
  · exact closest_of_integerDenotes (integerDenotes_of_read h) k.nativeInt.abs_lt_overflowBound
  · have hread := readInteger_eq_some_iff.2 (integerDenotes_of_read (Or.inl hj))
    rw [readInteger_eq_some_iff.2 (integerDenotes_of_read (Or.inr hk)), Option.some.injEq] at hread
    rw [← Option.some.injEq, ← j.ofInt_val, ← k.ofInt_val, hread]

/-- An integer half way between two floats, which is too large to be signed; a zero with a minus,
which is not unsigned; an integer with a plus, which is both; and the largest native integer. -/
theorem integer_readings_agree_half_way :
    ((⟨"+09223372036854776832"⟩ : Number .unchecked).unsigned?
        = some ⟨2 ^ 63 + 2 ^ 10, by decide, by decide⟩ ∧
      ∃ x : Finite64, (⟨"+09223372036854776832"⟩ : Number .unchecked).toBinary64 = .finite x ∧
        x.IsClosest (2 ^ 63 + 2 ^ 10 : Int)) ∧
    ((⟨"-00"⟩ : Number .unchecked).signed? = some ⟨0, by decide, by decide⟩ ∧
      ∃ x : Finite64, (⟨"-00"⟩ : Number .unchecked).toBinary64 = .finite x ∧
        x.IsClosest (0 : Int) ∧ x.neg = true) ∧
    ((⟨"+7"⟩ : Number .unchecked).signed? = some ⟨7, by decide, by decide⟩ ∧
      (⟨"+7"⟩ : Number .unchecked).unsigned? = some ⟨7, by decide, by decide⟩ ∧
      (⟨7, by decide, by decide⟩ : MachineInt) = ⟨7, by decide, by decide⟩) ∧
    NativeInt (2 ^ 128 - 1) ∧ Numeral.check (ofInt .safe (2 ^ 128 - 1)).text = .ok () ∧
      ∃ x : Finite64, (ofInt .safe (2 ^ 128 - 1)).toBinary64 = .finite x ∧
        x.IsClosest (2 ^ 128 - 1 : Int) := by
  have hlarge : (⟨"+09223372036854776832"⟩ : Number .unchecked).unsigned?
      = some ⟨2 ^ 63 + 2 ^ 10, by decide, by decide⟩ := by decide +kernel
  have hzero : (⟨"-00"⟩ : Number .unchecked).signed? = some ⟨0, by decide, by decide⟩ := by
    decide +kernel
  have hsigned : (⟨"+7"⟩ : Number .unchecked).signed? = some ⟨7, by decide, by decide⟩ := by
    decide +kernel
  have hunsigned : (⟨"+7"⟩ : Number .unchecked).unsigned? = some ⟨7, by decide, by decide⟩ := by
    decide +kernel
  have hnative : NativeInt (2 ^ 128 - 1) := by decide
  obtain ⟨hread, hboth, -⟩ := integer_readings_agree .unchecked
  obtain ⟨x, hx, hclosest, -⟩ := hread _ _ (Or.inr hlarge)
  obtain ⟨y, hy, hclosest', hneg⟩ := hread _ _ (Or.inl hzero)
  obtain ⟨hcheck, z, hz, hclosest'', -⟩ := (integer_readings_agree .safe).2.2.2 _ hnative
  exact ⟨⟨hlarge, x, hx, hclosest⟩, ⟨hzero, y, hy, hclosest', hneg.2 (by decide)⟩,
    ⟨hsigned, hunsigned, hboth _ _ _ hsigned hunsigned⟩, hnative, hcheck, z, hz, hclosest''⟩

end Number

end JsonTree
