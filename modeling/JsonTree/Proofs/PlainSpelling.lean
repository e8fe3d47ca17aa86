import JsonTree.Proofs.IntegerReading
import JsonTree.Proofs.WaysToData

/-!
# What the way through data keeps

A safe document is turned into its datum and made anew from it. Every number is then spelled as its
machine number: an integer in plain digits, a float in the serialized layout. The value of each
number is kept, only its spelling may be lost; and it is lost exactly if the text was not of one of
these kinds before.

- `IsNumeral.PlainInteger`: integers in plain digits; `IsNumeral.PlainInteger.eq_spellInt`: each but
  the negative zero is spelled in one way.
- `Number.PlainlySpelled`: the texts that the way through data leaves alone.
- `Number.Respelled`: what it keeps of any number; `Number.respelled_spelled`.
- `Document.through_data`: what it keeps of numbers and of documents.
-/

namespace JsonTree

open Binary64 FloatSyntax

/-! ## Plain digits -/

theorem exists_digitChar {c : Char} (h : c.isDigit) : ∃ k < 10, c = k.digitChar := by
  rw [Char.isDigit_iff_toNat] at h
  have hlow : 48 ≤ c.toNat := h.1
  have hhigh : c.toNat ≤ 57 := h.2
  refine ⟨c.toNat - 48, by omega, Char.toNat_inj.1 ?_⟩
  rw [Nat.toNat_digitChar_of_lt_ten (by omega)]
  omega

/-- Reading digits behind those of a positive number is appending them. -/
theorem toDigits_ofDigitChars {cs : List Char} (h : ∀ c ∈ cs, c.isDigit) {n : Nat} (hn : 0 < n) :
    Nat.toDigits 10 (Nat.ofDigitChars 10 cs n) = Nat.toDigits 10 n ++ cs := by
  induction cs generalizing n with
  | nil => rw [Nat.ofDigitChars_nil, List.append_nil]
  | cons c cs ih =>
    rw [List.forall_mem_cons] at h
    obtain ⟨k, hk, rfl⟩ := exists_digitChar h.1
    rw [Nat.ofDigitChars_cons_digitChar_of_lt_ten hk, ih h.2 (by omega),
      ← Nat.toDigits_append_toDigits (by decide) hn hk, Nat.toDigits_of_lt_base hk,
      List.append_assoc, List.singleton_append]

namespace IsNumeral

/-- Digits without leading zeros are the digits of their value. -/
theorem Whole.eq_toDigits {cs : List Char} (h : Whole cs) :
    cs = Nat.toDigits 10 (Nat.ofDigitChars 10 cs 0) := by
  cases h with
  | zero => rfl
  | positive lead nonzero digits =>
    obtain ⟨k, hk, rfl⟩ := exists_digitChar lead
    have hpos : 0 < k := Nat.pos_of_ne_zero fun hzero => nonzero (hzero ▸ rfl)
    rw [Nat.ofDigitChars_cons_digitChar_of_lt_ten hk, Nat.mul_zero, Nat.zero_add,
      toDigits_ofDigitChars digits hpos, Nat.toDigits_of_lt_base hk, List.singleton_append]

/-- An integer in plain digits: without leading zeros, and with a minus if it is negative. A zero
may have a minus, too. -/
inductive PlainInteger : List Char → Int → Prop where
  | unsigned {digits : List Char} (isWhole : Whole digits) :
      PlainInteger digits (Nat.ofDigitChars 10 digits 0)
  | negative {digits : List Char} (isWhole : Whole digits) :
      PlainInteger ('-' :: digits) (-(Nat.ofDigitChars 10 digits 0 : Int))

theorem plainInteger_spellInt (i : Int) : PlainInteger (spellInt i) i := by
  have hwhole := Decimal.whole_digits ⟨i.natAbs, 0⟩
  have hvalue := Decimal.ofDigitChars_digits ⟨i.natAbs, 0⟩
  unfold spellInt
  split
  · have hmk := PlainInteger.negative hwhole
    rwa [hvalue, show (-((i.natAbs : Nat) : Int)) = i by omega] at hmk
  · have hmk := PlainInteger.unsigned hwhole
    rwa [hvalue, show ((i.natAbs : Nat) : Int) = i by omega] at hmk

/-- Every integer has one text in plain digits, if the negative zero is left out. -/
theorem PlainInteger.eq_spellInt {cs : List Char} {i : Int} (h : PlainInteger cs i)
    (hzero : cs ≠ ['-', '0']) : cs = spellInt i := by
  cases h with
  | unsigned isWhole => exact isWhole.eq_toDigits
  | @negative digits isWhole =>
    have hdigits := isWhole.eq_toDigits
    have hpos : Nat.ofDigitChars 10 digits 0 ≠ 0 := by
      intro hvalue
      rw [hvalue] at hdigits
      exact hzero (congrArg ('-' :: ·) hdigits)
    rw [spellInt, if_pos (by omega), Int.natAbs_neg, Int.natAbs_natCast, ← hdigits]

end IsNumeral

namespace Number

variable {p : Policy} {n : Number p} {m : MachineNumber}

/-! ## One number -/

/-- The text is that of a machine number: the plain digits of an integer that fits 64 bits, the
negative zero left out, or the serialized text of a finite value. -/
def PlainlySpelled (n : Number p) : Prop :=
  (∃ i : Int, IsNumeral.PlainInteger n.text.toList i ∧ -2 ^ 63 ≤ i ∧ i ≤ 2 ^ 64 - 1 ∧
    n.text ≠ "-0") ∨ ∃ x : Finite64, n.text = x.serializedText

theorem plainlySpelled_spelled (m : MachineNumber) : (spelled p m).PlainlySpelled := by
  cases m with
  | int k =>
    have hlower := k.lower
    have hupper := k.upper
    have htext : (spelled p (.int k)).text.toList = spellInt k.val := String.toList_ofList
    refine Or.inl ⟨k.val, ?_, by omega, by omega, ?_⟩
    · rw [htext]
      exact IsNumeral.plainInteger_spellInt k.val
    · intro hzero
      rw [hzero] at htext
      exact MachineNumber.spellInt_ne_minusZero k.val htext.symm
  | float x => exact Or.inr ⟨x, rfl⟩

theorem PlainlySpelled.exists_spelled (h : n.PlainlySpelled) : ∃ m, n = spelled p m := by
  obtain ⟨text⟩ := n
  rcases h with ⟨i, hplain, hlower, hupper, hzero⟩ | ⟨x, hx⟩
  · have hchars := hplain.eq_spellInt fun heq => hzero (String.toList_inj.1 heq)
    refine ⟨.int ⟨i, by omega, by omega⟩, congrArg mk (String.toList_inj.1 ?_)⟩
    exact hchars.trans String.toList_ofList.symm
  · exact ⟨.float x, congrArg mk hx⟩

/-- A number is the one that is made of its machine number exactly if it is plainly spelled. -/
theorem spelled_eq_iff (h : n.reading = .number m) : spelled p m = n ↔ n.PlainlySpelled := by
  constructor
  · rintro rfl
    exact plainlySpelled_spelled m
  · intro hplain
    obtain ⟨k, rfl⟩ := hplain.exists_spelled
    rw [reading_spelled] at h
    cases h
    rfl

theorem integerDenotes_of_reading {k : MachineInt} (h : n.reading = .number (.int k)) :
    IntegerDenotes n.text.toList k.val :=
  (n.datum_eq_int_iff k).1 (datum_of_reading h)

theorem toBinary64_of_reading {x y : Finite64} (h : n.reading = .number (.float y))
    (hx : n.toBinary64 = .finite x) : y = x := by
  have hdatum := datum_of_reading h
  have hfloat : ∀ k : MachineInt, n.datum ≠ .num (.int k) := by
    intro k
    rw [hdatum]
    exact nofun
  rw [datum_of_not_integer hfloat, hx] at hdatum
  cases hdatum
  rfl

/-- What reads as a float reads as no signed integer. -/
theorem signed_of_reading {y : Finite64} (h : n.reading = .number (.float y)) :
    n.signed? = none := by
  unfold reading at h
  cases hinteger : n.signed?.or n.unsigned? with
  | some k =>
    rw [hinteger] at h
    cases h
  | none => exact (Option.or_eq_none_iff.1 hinteger).1

/-- What the way through its machine number keeps of a number: the value, the signed integer and the
datum; and the text exactly if it is plainly spelled. -/
structure Respelled (n m : Number p) : Prop where
  value : ∃ x y : Finite64, n.toBinary64 = .finite x ∧ m.toBinary64 = .finite y ∧
    y.value = x.value
  signed : m.signed? = n.signed?
  datum : m.toDatum = n.toDatum
  text : m.text = n.text ↔ n.PlainlySpelled

/-- The number that is made of the machine number of another one. -/
theorem respelled_spelled {x : Finite64} (hx : n.toBinary64 = .finite x)
    (h : n.reading = .number m) : n.Respelled (spelled p m) where
  value := by
    cases m with
    | int k =>
      have hrange := k.nativeInt.abs_lt_overflowBound
      obtain ⟨y, hy, hclosest, -⟩ := closest_of_integerDenotes
        (integerDenotes_of_reading (reading_spelled (p := p) (.int k))) hrange
      obtain ⟨z, hz, hclosest', -⟩ := closest_of_integerDenotes (integerDenotes_of_reading h) hrange
      exact ⟨z, y, hz, hy, hclosest.value_unique hclosest'⟩
    | float y =>
      obtain rfl := toBinary64_of_reading h hx
      exact ⟨y, y, hx, y.ofText_serializedText, rfl⟩
  signed := by
    cases m with
    | int k =>
      have hread := readInteger_eq_some_iff.2 (integerDenotes_of_reading h)
      have hspelled := readInteger_eq_some_iff.2
        (integerDenotes_of_reading (reading_spelled (p := p) (.int k)))
      rw [signed?, signed?, hread, hspelled]
    | float y => rw [signed_of_reading h, signed_of_reading (reading_spelled _)]
  datum := by rw [toDatum_of_reading h, toDatum_of_reading (reading_spelled m)]
  text := by
    rw [← spelled_eq_iff h]
    obtain ⟨text⟩ := n
    exact (mk.injEq ..).symm.to_iff

/-- The number is the same one exactly if it was plainly spelled. -/
theorem Respelled.eq_iff {m : Number p} (h : n.Respelled m) : m = n ↔ n.PlainlySpelled := by
  rw [← h.text]
  obtain ⟨text⟩ := n
  obtain ⟨text'⟩ := m
  exact (mk.injEq ..).to_iff

end Number

/-! ## Whole documents -/

namespace Document

open JsonTree.Tree

/-- A number of a sound document is made anew from its machine number. -/
theorem reread_respelled {n : Number .safe} (h : n.Sound) :
    ∃ m, n.reread = .num m ∧ n.Respelled m := by
  obtain ⟨x, hx⟩ := h.wellBehaved.finite
  obtain ⟨k, hk, -⟩ := h.wellBehaved.reading
  refine ⟨.spelled .safe k, ?_, Number.respelled_spelled hx hk⟩
  rw [Number.reread, Number.datum_of_reading hk]
  rfl

/-- A sound document is made anew number by number. -/
theorem exists_respelling {t : Document .safe} (h : t.Sound) :
    ∃ f : Number .safe → Number .safe, (∀ n ∈ t.numbers, n.Respelled (f n)) ∧
      ofDatum .safe t.toDatum.value = .ok (rebuild id (fun n => .num (f n)) t) := by
  choose! f hreread hrespelled using fun (n : Number .safe) (hn : n.Sound) => reread_respelled hn
  refine ⟨f, fun n hn => hrespelled n (h.numbers n hn), ?_⟩
  rw [ofDatum_toDatum h.keyed, rebuild_congr fun n hn => hreread n (h.numbers n hn)]

/-- The way through data loses the spelling of numbers and nothing else. Of a number it keeps the
value, the signed integer and the datum, and the text exactly if it is plainly spelled. A document
keeps its shape, and going through data again changes nothing; it is made anew exactly as it was if
all its numbers are plainly spelled. -/
theorem through_data :
    (∀ n : Number .safe, n.Sound →
      ∃ m, ofDatum .safe n.toDatum.value = .ok (.num m) ∧ n.Respelled m) ∧
    ∀ t : Document .safe, t.Sound → ∃ u, ofDatum .safe t.toDatum.value = .ok u ∧
      Corresponds (fun n v => ∃ m, v = .num m ∧ n.Respelled m) t u ∧
      ofDatum .safe u.toDatum.value = .ok u ∧
      (u = t ↔ ∀ n ∈ t.numbers, n.PlainlySpelled) := by
  refine ⟨fun n hn => ?_, fun t ht => ?_⟩
  · obtain ⟨m, hm, hrespelled⟩ := reread_respelled hn
    have hback : ofDatum .safe (toDatum (.num n)).value = .ok n.reread := ofDatum_toDatum trivial
    exact ⟨m, hm ▸ hback, hrespelled⟩
  · obtain ⟨f, hf, hback⟩ := exists_respelling ht
    have hdatum := (toDatum_of_ofDatum (keyed_toDatum ht.keyed) hback).2
    refine ⟨_, hback, corresponds_rebuild fun n hn => ⟨f n, rfl, hf n hn⟩, ?_, ?_⟩
    · rw [hdatum]
      exact hback
    · rw [rebuild_eq_self_iff]
      exact forall₂_congr fun n hn => (hf n hn).eq_iff

/-- Numbers that keep their texts beside numbers that do not: the negative zero as an integer and as
a float, an exponent, more digits than are needed, and an integer behind the greatest one. -/
def respelledNumbers : Document .safe :=
  .obj [("kept", .arr [.num ⟨"7"⟩, .num ⟨"-0.0"⟩, .num ⟨"1.5"⟩]),
    ("lost", .arr [.num ⟨"-0"⟩, .num ⟨"15E1"⟩, .num ⟨"1.50"⟩, .num ⟨"18446744073709551616"⟩])]

theorem through_data_respelledNumbers :
    Number.Sound (p := .safe) ⟨"-0"⟩ ∧
      (∃ m, ofDatum .safe (Number.toDatum (p := .safe) ⟨"-0"⟩).value = .ok (.num m) ∧
        Number.Respelled ⟨"-0"⟩ m) ∧
      respelledNumbers.Sound ∧ ∃ u, ofDatum .safe respelledNumbers.toDatum.value = .ok u ∧
        Corresponds (fun n v => ∃ m, v = .num m ∧ n.Respelled m) respelledNumbers u ∧
        ofDatum .safe u.toDatum.value = .ok u ∧ u ≠ respelledNumbers := by
  have hnumber : Number.Sound (p := .safe) ⟨"-0"⟩ := by
    unfold Number.Sound
    decide +kernel
  have hsound : respelledNumbers.Sound := by
    refine ⟨?_, by simp [respelledNumbers, Keyed, ItemsKeyed, MembersKeyed, Members.keys]⟩
    unfold Number.Sound
    decide +kernel
  have hzero : ¬ Number.PlainlySpelled (p := .safe) ⟨"-0"⟩ := by
    have hread : Number.reading (p := .safe) ⟨"-0"⟩ = .number (.int ⟨0, by decide, by decide⟩) := by
      decide +kernel
    rw [← Number.spelled_eq_iff hread]
    decide
  have hmem : (⟨"-0"⟩ : Number .safe) ∈ respelledNumbers.numbers := by decide
  obtain ⟨u, hu, hshape, hagain, hsame⟩ := through_data.2 _ hsound
  exact ⟨hnumber, through_data.1 _ hnumber, hsound, u, hu, hshape, hagain,
    fun heq => hzero (hsame.1 heq _ hmem)⟩

end Document

end JsonTree
