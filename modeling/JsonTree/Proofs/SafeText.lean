import JsonTree.Number
import JsonTree.Proofs.NumeralScan
import JsonTree.Proofs.Spelling

/-!
# Texts that keep the rules for safe numbers

Numbers that are made of a machine value are stored without a check of their text. These are the
facts that make the check superfluous.

- `Numeral.check_eq_ok_iff`: what it takes to keep the rules.
- `Finite64.check_spell`: the spelling of a binary64 value keeps them, in any layout.
- `NativeInt`, `check_spellInt`: the digits of a native integer keep them, too.
-/

namespace JsonTree

open IsNumeral

/-! ## The rules -/

/-- A text is in range exactly if its float is finite. -/
theorem Numeral.checkRange_eq_ok_iff (text : String) :
    Numeral.checkRange text = .ok () ↔ ∃ x, Binary64.ofText text = .finite x := by
  unfold Numeral.checkRange
  cases Binary64.ofText text with
  | finite x => simp
  | nonFinite w => simp

/-- A text keeps the rules if the scanner accepts it and it reads as a finite value. -/
theorem Numeral.check_eq_ok_iff (text : String) :
    Numeral.check text = .ok () ↔
      Numeral.validate text = .ok () ∧ ∃ x, Binary64.ofText text = .finite x := by
  rw [← Numeral.checkRange_eq_ok_iff]
  unfold Numeral.check
  cases Numeral.validate text with
  | ok u => exact ⟨fun h => ⟨rfl, h⟩, fun h => h.2⟩
  | error e =>
    constructor
    · intro h
      cases h
    · rintro ⟨h, -⟩
      cases h

/-- A number is well formed exactly if the safe policy would hold its text, whatever policy it is
under. -/
theorem Number.isWellFormed_iff {p : Policy} (n : Number p) :
    n.isWellFormed = true ↔ Numeral.check n.text = .ok () := by
  unfold Number.isWellFormed
  cases Numeral.check n.text with
  | ok u => exact ⟨fun _ => rfl, fun _ => rfl⟩
  | error e =>
    constructor
    · intro h
      cases h
    · intro h
      cases h

/-! ## Binary64 values -/

namespace Finite64

/-- Every text of a finite value is a numeral. -/
theorem validate_spell (layout : Decimal.Layout) (x : Finite64) :
    Numeral.validate (String.ofList (x.spell layout)) = .ok () := by
  apply Numeral.validate_of_isNumeral
  rw [String.toList_ofList]
  exact x.isNumeral_spell layout

/-- The spelling of a binary64 value keeps the rules. -/
theorem check_spell (layout : Decimal.Layout) (x : Finite64) :
    Numeral.check (String.ofList (x.spell layout)) = .ok () :=
  (Numeral.check_eq_ok_iff _).2 ⟨x.validate_spell layout, _, x.ofText_spell layout⟩

end Finite64

/-! ## Native integers -/

/-- The integers of the native types, of which the widest have 128 bits. -/
def NativeInt (n : Int) : Prop := -2 ^ 127 ≤ n ∧ n < 2 ^ 128

instance (n : Int) : Decidable (NativeInt n) := inferInstanceAs (Decidable (_ ∧ _))

theorem magnitude_toDigits (n : Nat) : Magnitude (Nat.toDigits 10 n) (Decimal.value ⟨n, 0⟩) := by
  refine .of_eq (Decimal.whole_digits ⟨n, 0⟩) .absent .absent (by simp [Decimal.digits]) ?_
  simp [Decimal.digits]

theorem isNumeral_spellInt (n : Int) : IsNumeral (spellInt n) := by
  unfold spellInt
  split
  · exact (magnitude_toDigits n.natAbs).isNumeral_minus
  · exact (magnitude_toDigits n.natAbs).isNumeral

namespace Binary64

/-- Up to 2^128 an integer has a finite nearest value. -/
theorem exists_finite_of_le {n : Nat} (h : n ≤ 2 ^ 128) (neg : Bool) :
    ∃ x, Decimal.toBinary64 neg ⟨n, 0⟩ = .finite x := by
  have hvalue : Decimal.value ⟨n, 0⟩ = n := by simp [Decimal.value]
  have hle : (n : ℚ) ≤ 2 ^ 128 := by exact_mod_cast h
  rw [Decimal.exists_finite_iff, hvalue]
  exact hle.trans_lt two_pow_lt_overflowBound

end Binary64

/-- The digits of a native integer keep the rules. -/
theorem check_spellInt {n : Int} (h : NativeInt n) :
    Numeral.check (String.ofList (spellInt n)) = .ok () := by
  obtain ⟨hlow, hhigh⟩ := h
  rw [Numeral.check_eq_ok_iff]
  constructor
  · apply Numeral.validate_of_isNumeral
    rw [String.toList_ofList]
    exact isNumeral_spellInt n
  · unfold spellInt
    split
    · rw [Binary64.ofText_of_minus (magnitude_toDigits n.natAbs)]
      exact Binary64.exists_finite_of_le (by omega) true
    · rw [Binary64.ofText_of_magnitude (magnitude_toDigits n.natAbs)]
      exact Binary64.exists_finite_of_le (by omega) false

end JsonTree
