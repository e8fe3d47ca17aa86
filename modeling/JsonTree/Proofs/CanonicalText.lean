import JsonTree.Proofs.SafeText
import JsonTree.Session

/-!
# Numbers made of binary64 values

A number that is made of a binary64 value holds the canonical text of the value. The text of a
finite value keeps the rules for safe numbers and reads back as the value, except that the text of
the negative zero is the text of the positive one.

- `Finite64.ofText_canonicalText`: the reading of a canonical text.
- `Finite64.canonicalText_inj`: canonical texts are equal exactly for values that are equal.
- `Binary64.ofBits_finite`: a finite value is nothing but its bits.
- `Number.ofBinary64_round_trip`: the round trip, for every value and under both policies.
-/

namespace JsonTree

namespace Finite64

/-- The zero of a sign. -/
def zero (neg : Bool) : Finite64 := ⟨neg, 0, by decide⟩

/-! ## What the canonical layout shows -/

/-- The canonical layout shows every value but the negative zero as itself. -/
theorem shown_canonical {x : Finite64} (h : x ≠ zero true) : x.shown .canonical = x := by
  obtain ⟨neg, rank, hrank⟩ := x
  have hneg : (neg && (false || rank != 0)) = neg := by
    cases neg with
    | false => rfl
    | true =>
      have hne : rank ≠ 0 := by
        rintro rfl
        exact h rfl
      simp [hne]
  unfold shown
  simp only [Decimal.Layout.canonical, hneg]

/-- The serialized layout shows every value as itself, the sign of zero included. -/
theorem shown_serialized (x : Finite64) : x.shown .serialized = x := by
  unfold shown
  simp only [Decimal.Layout.serialized, Bool.true_or, Bool.and_true]

/-- The canonical layout shows what numeric equality sees. -/
theorem shown_canonical_inj (x y : Finite64) :
    x.shown .canonical = y.shown .canonical ↔ x.numEq y = true := by
  rw [numEq_iff, shown, shown, Finite64.mk.injEq]
  simp only [Decimal.Layout.canonical, Bool.false_or]
  constructor
  · rintro ⟨hneg, hrank⟩
    refine ⟨hrank, ?_⟩
    by_cases hzero : x.rank = 0
    · exact Or.inr hzero
    · left
      have hshows : (y.rank != 0) = true := bne_iff_ne.2 (hrank ▸ hzero)
      rwa [hrank, hshows, Bool.and_true, Bool.and_true] at hneg
  · rintro ⟨hrank, hneg | hzero⟩
    · exact ⟨by rw [hneg, hrank], hrank⟩
    · refine ⟨?_, hrank⟩
      have hzero' : y.rank = 0 := hrank ▸ hzero
      simp [hzero, hzero']

/-! ## Canonical texts -/

/-- The canonical text of a value reads as the value that it shows. -/
theorem ofText_canonicalText (x : Finite64) :
    Binary64.ofText x.canonicalText = .finite (x.shown .canonical) :=
  x.ofText_spell .canonical

/-- The serialized text of a value reads as that value. -/
theorem ofText_serializedText (x : Finite64) : Binary64.ofText x.serializedText = .finite x := by
  rw [serializedText, ofText_spell, shown_serialized]

theorem canonicalText_shown (x : Finite64) :
    (x.shown .canonical).canonicalText = x.canonicalText := by
  have hneg : ((x.shown .canonical).shown .canonical).neg = (x.shown .canonical).neg := by
    simp only [shown, Bool.and_assoc, Bool.and_self]
  rw [canonicalText, canonicalText, spell_eq, spell_eq, hneg]
  rfl

/-- Canonical texts are equal exactly for values that are numerically equal. -/
theorem canonicalText_inj (x y : Finite64) :
    x.canonicalText = y.canonicalText ↔ x.numEq y = true := by
  rw [← shown_canonical_inj]
  constructor
  · intro h
    have hread := x.ofText_canonicalText
    rw [h, ofText_canonicalText] at hread
    injection hread with hread
    exact hread.symm
  · intro h
    rw [← canonicalText_shown x, h, canonicalText_shown]

/-- Both zeros have one canonical text. -/
theorem canonicalText_zero (neg : Bool) : (zero neg).canonicalText = "0" := by
  cases neg with
  | false => rfl
  | true => rfl

end Finite64

/-! ## Bits -/

namespace Binary64

theorem ofBits_finite {bits : UInt64} {x : Finite64} (h : ofBits bits = .finite x) :
    (Binary64.finite x).toBits = bits := by
  have hlt : bits.toNat < 2 ^ 64 := bits.toNat_lt
  unfold ofBits at h
  simp only at h
  split at h
  · cases h
  · unfold ofRank at h
    split at h
    · injection h with h
      subst h
      rw [← UInt64.toNat_inj]
      unfold toBits
      simp only [Nat.toUInt64_eq, UInt64.toNat_ofNat']
      rw [natPow_eq]
      by_cases hneg : 2 ^ 63 ≤ bits.toNat
      · simp only [hneg, decide_true, Bool.toNat_true]
        omega
      · simp only [hneg, decide_false, Bool.toNat_false]
        omega
    · cases h

end Binary64

namespace Number

/-! ## The round trip -/

theorem ofBinary64_finite (p : Policy) (x : Finite64) :
    ofBinary64 p (.finite x) = .ok ⟨x.canonicalText⟩ := by
  cases p with
  | safe => rfl
  | unchecked => rfl

/-- A number that was made from a value reads as the value that its text shows. -/
theorem toBinary64_canonical (p : Policy) (x : Finite64) :
    (⟨x.canonicalText⟩ : Number p).toBinary64 = .finite (x.shown .canonical) :=
  x.ofText_canonicalText

/-- Every finite value but the negative zero reads back bit for bit. -/
theorem toBits_canonical (p : Policy) {bits : UInt64} {x : Finite64}
    (h : Binary64.ofBits bits = .finite x) :
    (⟨x.canonicalText⟩ : Number p).toBinary64.toBits
      = if bits = 0x8000000000000000 then 0 else bits := by
  rw [toBinary64_canonical]
  split
  · rename_i hbits
    subst hbits
    have hzero : Binary64.ofBits 0x8000000000000000 = .finite (.zero true) := by decide
    rw [hzero] at h
    injection h with h
    subst h
    decide
  · rename_i hbits
    have hne : x ≠ .zero true := by
      rintro rfl
      exact hbits (Binary64.ofBits_finite h).symm
    rw [Finite64.shown_canonical hne]
    exact Binary64.ofBits_finite h

/-- Writing a safe number anew from its reading succeeds, and changes nothing a second time. -/
theorem respell_respell {n : Number .safe} (h : n.isWellFormed = true) :
    ∃ m, n.respell = .ok m ∧ m.respell = .ok m := by
  obtain ⟨-, x, hx⟩ := (Numeral.check_eq_ok_iff _).1 (n.isWellFormed_iff.1 h)
  -- the new text is canonical, and a canonical text is spelled from its own reading
  refine ⟨⟨x.canonicalText⟩, ?_, ?_⟩
  · rw [respell, toBinary64, hx, ofBinary64_finite]
  · rw [respell, toBinary64_canonical, ofBinary64_finite, Finite64.canonicalText_shown]

/-- A number made of a binary64 value reads back as that value. A finite value is held under both
policies, with a text that keeps the rules for safe numbers, and reads back bit for bit, the
negative zero alone as the positive one; so two such numbers are equal exactly when the values are,
and writing a safe number anew from its reading succeeds and is idempotent. The infinities and the
NaN read back under the unchecked policy, and are refused as such under the safe one. -/
theorem ofBinary64_round_trip :
    (∀ (p : Policy) (x : Finite64), ∃ n, ofBinary64 p (.finite x) = .ok n ∧
      Numeral.validate n.text = .ok () ∧ Numeral.check n.text = .ok () ∧
      (x ≠ .zero true → n.toBinary64 = .finite x) ∧
      (x = .zero true → n.text = "0" ∧ n.toBinary64 = .finite (.zero false))) ∧
    (∀ (p : Policy) (bits : UInt64) (x : Finite64), Binary64.ofBits bits = .finite x →
      ∃ n, ofBinary64 p (Binary64.ofBits bits) = .ok n ∧
        n.toBinary64.toBits = if bits = 0x8000000000000000 then 0 else bits) ∧
    (∀ (p : Policy) (x y : Finite64),
      ofBinary64 p (.finite x) = ofBinary64 p (.finite y) ↔ x.value = y.value) ∧
    (∀ n : Number .safe, n.isWellFormed = true → ∃ m, n.respell = .ok m ∧ m.respell = .ok m) ∧
    (∀ w : NonFinite, (∃ n, ofBinary64 .unchecked (.nonFinite w) = .ok n ∧
        n.toBinary64 = .nonFinite w) ∧
      ofBinary64 .safe (.nonFinite w) = .error (.nonFinite w)) := by
  refine ⟨?_, ?_, ?_, fun n => respell_respell, ?_⟩
  · intro p x
    refine ⟨_, ofBinary64_finite p x, x.validate_spell .canonical, x.check_spell .canonical, ?_, ?_⟩
    · intro hx
      rw [toBinary64_canonical, Finite64.shown_canonical hx]
    · rintro rfl
      exact ⟨Finite64.canonicalText_zero true, toBinary64_canonical p (.zero true)⟩
  · intro p bits x hx
    exact ⟨⟨x.canonicalText⟩, by rw [hx, ofBinary64_finite], toBits_canonical p hx⟩
  · intro p x y
    rw [ofBinary64_finite, ofBinary64_finite, Except.ok.injEq, Number.mk.injEq, x.value_inj y]
    exact x.canonicalText_inj y
  · rintro (neg | _)
    · cases neg with
      | false => exact ⟨⟨_, rfl, by decide⟩, rfl⟩
      | true => exact ⟨⟨_, rfl, by decide⟩, rfl⟩
    · exact ⟨⟨_, rfl, by decide⟩, rfl⟩

/-- The round trip of a third, whose digits do not end, and a safe number that is written anew. -/
theorem ofBinary64_round_trip_third :
    (∃ n, ofBinary64 .safe (Binary64.ofBits 0x3fd5555555555555) = .ok n ∧
      n.toBinary64.toBits = 0x3fd5555555555555) ∧
    (⟨"-1.50E+00"⟩ : Number .safe).isWellFormed = true ∧
    ∃ m, (⟨"-1.50E+00"⟩ : Number .safe).respell = .ok m ∧ m.respell = .ok m := by
  obtain ⟨-, hbits, -, hrespell, -⟩ := ofBinary64_round_trip
  have hwell : (⟨"-1.50E+00"⟩ : Number .safe).isWellFormed = true := by decide +kernel
  exact ⟨hbits .safe 0x3fd5555555555555 ⟨false, 0x3fd5555555555555, by decide⟩ (by decide),
    hwell, hrespell _ hwell⟩

end Number

end JsonTree
