import JsonTree.Document.Data
import JsonTree.Proofs.CanonicalText

/-!
# Numbers made of machine numbers

A machine number is stored as its text, and the text is read back as the same machine number, of
the same kind. The kind survives because the text of a float always has a point or an exponent.

- `readInteger_spellInt`: an integer reads back as itself.
- `Finite64.not_readInteger_serialized`: no text of a float reads as an integer.
- `Number.spelled`: the number with the text of a machine number; `Number.ofMachine_eq`: no policy
  refuses it.
- `Number.signed_or_unsigned`: the integers that are read, with or without a minus.
- `Number.reading_spelled`: a machine number is read back from its text.
-/

namespace JsonTree

/-! ## Integers -/

/-- An integer is read back from its digits. -/
theorem readInteger_spellInt (n : Int) : readInteger? (spellInt n) = some n := by
  unfold spellInt
  split
  · rw [readInteger_minus (digits_toDigits _), Nat.ofDigitChars_ten_toDigits]
    congr 1
    omega
  · rw [readInteger_of_digits (digits_toDigits _), Nat.ofDigitChars_ten_toDigits]
    congr 1
    omega

/-- A minus is read exactly where one stands first. -/
theorem readSign_eq_minus_iff {cs : List Char} : (readSign cs).1 = true ↔ cs.head? = some '-' := by
  unfold readSign
  split
  · exact iff_of_true rfl rfl
  · exact iff_of_false nofun nofun
  · rename_i hminus _
    refine iff_of_false nofun fun hhead => ?_
    obtain ⟨rest, rfl⟩ := List.head?_eq_some_iff.1 hhead
    exact hminus rest rfl

/-- An integer lies on the side of zero that its sign says. -/
theorem sign_of_readInteger {cs : List Char} {n : Int} (h : readInteger? cs = some n) :
    if cs.head? = some '-' then n ≤ 0 else 0 ≤ n := by
  obtain ⟨m, -, rfl⟩ := readInteger_eq_some h
  by_cases hminus : (readSign cs).1 = true
  · rw [if_pos (readSign_eq_minus_iff.1 hminus), if_pos hminus]
    exact neg_nonpos.2 (Int.natCast_nonneg m)
  · rw [if_neg (mt readSign_eq_minus_iff.2 hminus), if_neg hminus]
    exact Int.natCast_nonneg m

/-- The value of a machine integer fits. -/
theorem MachineInt.ofInt_val (n : MachineInt) : MachineInt.ofInt? n.val = some n :=
  dif_pos ⟨n.lower, n.upper⟩

theorem MachineInt.val_of_ofInt {n : Int} {k : MachineInt} (h : MachineInt.ofInt? n = some k) :
    k.val = n := by
  unfold MachineInt.ofInt? at h
  split at h
  · cases h
    rfl
  · cases h

theorem MachineInt.eq_of_val_eq {m n : MachineInt} (h : m.val = n.val) : m = n :=
  Option.some.inj (m.ofInt_val.symm.trans ((congrArg ofInt? h).trans n.ofInt_val))

/-- A machine integer is of a native type. -/
theorem MachineInt.nativeInt (n : MachineInt) : NativeInt n.val := by
  have hlower := n.lower
  have hupper := n.upper
  unfold NativeInt
  omega

/-! ## Floats -/

/-- What reads as an integer is a sign and digits. -/
theorem isDigit_of_readInteger {cs : List Char} {n : Int} (h : readInteger? cs = some n) :
    ∀ c ∈ cs, c.isDigit ∨ c = '-' ∨ c = '+' := by
  obtain ⟨m, hm, -⟩ := readInteger_eq_some h
  have hbody : ∀ c ∈ (readSign cs).2, c.isDigit := by
    unfold readDigits? at hm
    split at hm
    · rename_i hdigits
      exact List.all_eq_true.1 hdigits.2
    · cases hm
  intro c hc
  unfold readSign at hbody
  split at hbody
  · rcases List.mem_cons.1 hc with rfl | hc
    · exact Or.inr (Or.inl rfl)
    · exact Or.inl (hbody c hc)
  · rcases List.mem_cons.1 hc with rfl | hc
    · exact Or.inr (Or.inr rfl)
    · exact Or.inl (hbody c hc)
  · exact Or.inl (hbody c hc)

namespace Decimal

/-- A scientific spelling has an exponent. -/
theorem mark_mem_spellScientific (d : Decimal) : 'e' ∈ d.spellScientific := by
  obtain ⟨c, cs, hdigits, -, -⟩ := d.digits_eq_cons
  unfold spellScientific spellExponent
  rw [hdigits]
  cases cs with
  | nil => simp
  | cons c' cs => simp

/-- A positional spelling that shows its point has one. -/
theorem point_mem_spellPlain (d : Decimal) : '.' ∈ d.spellPlain true := by
  unfold spellPlain
  split
  · simp
  · split
    · simp
    · simp

end Decimal

/-- No text of a float reads as an integer. -/
theorem Finite64.not_readInteger_serialized (x : Finite64) :
    readInteger? (x.spell .serialized) = none := by
  -- every float shows a point or an exponent, and an integer shows neither
  have hmark : ∃ c ∈ (Decimal.shortest x.rank).spell .serialized, c = '.' ∨ c = 'e' := by
    unfold Decimal.spell
    split
    · exact ⟨'.', Decimal.point_mem_spellPlain _, Or.inl rfl⟩
    · exact ⟨'e', Decimal.mark_mem_spellScientific _, Or.inr rfl⟩
  obtain ⟨c, hc, hmark⟩ := hmark
  have hmem : c ∈ x.spell .serialized := by
    rw [spell_eq]
    split
    · exact List.mem_cons_of_mem _ hc
    · exact hc
  cases hread : readInteger? (x.spell .serialized) with
  | none => rfl
  | some n =>
    have hdigit := isDigit_of_readInteger hread c hmem
    rcases hmark with rfl | rfl
    · exact absurd hdigit (by decide)
    · exact absurd hdigit (by decide)

/-! ## Numbers -/

namespace Number

variable {p : Policy}

/-- The signed and the unsigned reading together read every integer that fits. -/
theorem signed_or_unsigned (n : Number p) :
    n.signed?.or n.unsigned? = (readInteger? n.text.toList).bind MachineInt.ofInt? := by
  unfold signed? unsigned? readNatural?
  cases hread : readInteger? n.text.toList with
  | none => simp
  | some i =>
    have hsign := sign_of_readInteger hread
    simp only [Option.bind_eq_bind, Option.bind_some]
    by_cases hhead : n.text.toList.head? = some '-'
    · -- what has a minus is small enough for the signed reading
      rw [if_pos hhead] at hsign
      rw [if_pos hhead, if_pos (by omega), Option.bind_none, Option.or_none]
    · rw [if_neg hhead, Option.bind_some]
      by_cases hlt : i < 0x8000000000000000
      · rw [if_pos hlt, Option.or_self]
      · rw [if_neg hlt, Option.none_or]

/-- The text of a machine integer reads as that integer. -/
theorem reading_ofInt (n : MachineInt) : (ofInt p n.val).reading = .number (.int n) := by
  unfold reading
  rw [signed_or_unsigned, ofInt, String.toList_ofList, readInteger_spellInt, Option.bind_some,
    n.ofInt_val]

/-- The serialized text of a float reads as that float: its fraction or exponent keeps it from being
an integer. -/
theorem reading_serializedText (x : Finite64) :
    (⟨x.serializedText⟩ : Number p).reading = .number (.float x) := by
  have hvalue : (⟨x.serializedText⟩ : Number p).toBinary64 = .finite x := x.ofText_serializedText
  unfold reading
  rw [signed_or_unsigned, Finite64.serializedText, String.toList_ofList,
    x.not_readInteger_serialized, Option.bind_none, ← Finite64.serializedText, hvalue]

theorem ofText_serializedText (p : Policy) (x : Finite64) :
    ofText p x.serializedText = .ok ⟨x.serializedText⟩ := by
  have hcheck : p.checkText x.serializedText = .ok () := by
    cases p with
    | safe => exact x.check_spell .serialized
    | unchecked => rfl
  unfold ofText
  rw [hcheck]
  rfl

/-- The number with the text of a machine number. -/
def spelled (p : Policy) (m : MachineNumber) : Number p := ⟨String.ofList m.spell⟩

/-- No policy refuses a machine number. -/
theorem ofMachine_eq (p : Policy) (m : MachineNumber) : ofMachine p m = .ok (spelled p m) := by
  cases m with
  | int n => rfl
  | float x => exact ofText_serializedText p x

/-- A machine number is read back from its text. -/
theorem reading_spelled (m : MachineNumber) : (spelled p m).reading = .number m := by
  cases m with
  | int n => exact reading_ofInt n
  | float x => exact reading_serializedText x

/-- What reads as a machine number becomes that number, without a record. -/
theorem toDatum_of_reading {n : Number p} {m : MachineNumber} (h : n.reading = .number m) :
    n.toDatum = .silent (.num m) := by
  unfold toDatum datum losses
  rw [h]
  rfl

theorem datum_of_reading {n : Number p} {m : MachineNumber} (h : n.reading = .number m) :
    n.datum = .num m := congrArg Logged.value (toDatum_of_reading h)

/-- A machine number comes back from its text. -/
theorem datum_spelled (m : MachineNumber) : (spelled p m).datum = .num m :=
  datum_of_reading (reading_spelled m)

end Number

end JsonTree
