import JsonTree.JsonText.Reader
import JsonTree.Proofs.FiniteRange
import JsonTree.Proofs.LexedNumbers

/-!
# Two ways to a number

A number text can be kept as it is, or read as JSON and written anew. Both ways accept the same
texts, and the numbers that they make convert to the same datum: of the same kind, and with the same
bits. The one exception is `-0`, an integer as a text and a float as JSON.

- `IsNumeral.denotes_of_readInteger`: the JSON numbers that read as integers.
- `MachineNumber.exists_ofNumeral_iff`: the JSON numbers that are read as some machine number.
- `MachineNumber.ofNumeral_cases`: integer or float; `Number.reading_of_ofNumeral`: a kept text reads
  as the same machine number.
- `Number.ofJsonText_eq_ok_iff`: the numbers of JSON texts.
- `Number.readers_agree`: the two ways agree.
-/

namespace JsonTree

/-! ## JSON numbers that are integers -/

namespace IsNumeral

variable {cs : List Char}

theorem Fraction.eq_nil (h : Fraction cs) (hpoint : '.' ∉ cs) : cs = [] := by
  cases h with
  | absent => rfl
  | present _ => exact absurd List.mem_cons_self hpoint

theorem Exponent.eq_nil (h : Exponent cs) (hmark : ∀ mark, mark = 'e' ∨ mark = 'E' → mark ∉ cs) :
    cs = [] := by
  cases h with
  | absent => rfl
  | unsigned isMark _ => exact absurd List.mem_cons_self (hmark _ isMark)
  | signed isMark _ _ => exact absurd List.mem_cons_self (hmark _ isMark)

/-- Signs and digits are neither a fraction nor an exponent. -/
theorem eq_nil_of_signed_digits {whole fraction exponent : List Char}
    (isFraction : Fraction fraction) (isExponent : Exponent exponent)
    (h : ∀ c ∈ whole ++ fraction ++ exponent, c.isDigit ∨ c = '-' ∨ c = '+') :
    fraction = [] ∧ exponent = [] := by
  rw [List.append_assoc, List.forall_mem_append, List.forall_mem_append] at h
  obtain ⟨-, hfraction, hexponent⟩ := h
  constructor
  · exact isFraction.eq_nil fun hpoint => absurd (hfraction '.' hpoint) (by decide)
  · refine isExponent.eq_nil fun mark isMark hmem => ?_
    have hmark := hexponent mark hmem
    rcases isMark with rfl | rfl
    · exact absurd hmark (by decide)
    · exact absurd hmark (by decide)

/-- A JSON number that reads as an integer denotes it. -/
theorem denotes_of_readInteger {n : Int} (h : IsNumeral cs) (hread : readInteger? cs = some n) :
    Denotes cs n := by
  have hsymbols := isDigit_of_readInteger hread
  cases h with
  | unsigned isWhole isFraction isExponent =>
    obtain ⟨rfl, rfl⟩ := eq_nil_of_signed_digits isFraction isExponent hsymbols
    rw [List.append_nil, List.append_nil] at hread ⊢
    rw [readInteger_of_digits isWhole.digits] at hread
    cases hread
    exact .unsigned isWhole.magnitude
  | negative isWhole isFraction isExponent =>
    obtain ⟨rfl, rfl⟩ :=
      eq_nil_of_signed_digits isFraction isExponent (List.forall_mem_cons.1 hsymbols).2
    rw [List.append_nil, List.append_nil] at hread ⊢
    rw [readInteger_minus isWhole.digits] at hread
    cases hread
    rw [Int.cast_neg]
    exact .negative isWhole.magnitude

end IsNumeral

/-! ## JSON numbers that are machine numbers -/

theorem NativeInt.abs_lt_overflowBound {n : Int} (h : NativeInt n) :
    |(n : ℚ)| < Binary64.overflowBound := by
  obtain ⟨hlow, hhigh⟩ := h
  have habs : |n| ≤ 2 ^ 128 := abs_le.2 ⟨by omega, by omega⟩
  have hcast : |(n : ℚ)| ≤ 2 ^ 128 := by exact_mod_cast habs
  exact hcast.trans_lt Binary64.two_pow_lt_overflowBound

namespace MachineNumber

/-- A numeral is read as an integer if it fits, unless it is `-0`, and else as a float. -/
theorem ofNumeral_cases (cs : List Char) :
    (∃ n, cs ≠ ['-', '0'] ∧ (readInteger? cs).bind MachineInt.ofInt? = some n ∧
        ofNumeral? cs = some (.int n)) ∨
      ((cs = ['-', '0'] ∨ (readInteger? cs).bind MachineInt.ofInt? = none) ∧
        ofNumeral? cs = (Binary64.ofText (String.ofList cs)).finite?.map .float) := by
  by_cases hzero : cs = ['-', '0']
  · refine Or.inr ⟨Or.inl hzero, ?_⟩
    unfold ofNumeral?
    rw [if_pos hzero]
  · cases hinteger : (readInteger? cs).bind MachineInt.ofInt? with
    | some n =>
      refine Or.inl ⟨n, hzero, rfl, ?_⟩
      unfold ofNumeral?
      rw [if_neg hzero, hinteger]
    | none =>
      refine Or.inr ⟨Or.inr rfl, ?_⟩
      unfold ofNumeral?
      rw [if_neg hzero, hinteger]

/-- A JSON number is read as a machine number exactly if its float value is finite: the integers
that fit are far from the bound. -/
theorem exists_ofNumeral_iff {text : String} (h : IsNumeral text.toList) :
    (∃ m, ofNumeral? text.toList = some m) ↔ ∃ x, Binary64.ofText text = .finite x := by
  rcases ofNumeral_cases text.toList with ⟨k, -, hinteger, hread⟩ | ⟨-, hread⟩
  · obtain ⟨n, hn, hk⟩ := Option.bind_eq_some_iff.1 hinteger
    have hfinite := (h.denotes_of_readInteger hn).ofText_finite_iff
    rw [String.ofList_toList, ← MachineInt.val_of_ofInt hk] at hfinite
    exact iff_of_true ⟨_, hread⟩ (hfinite.2 k.nativeInt.abs_lt_overflowBound)
  · rw [hread, String.ofList_toList]
    cases Binary64.ofText text with
    | finite x => exact iff_of_true ⟨.float x, rfl⟩ ⟨x, rfl⟩
    | nonFinite w =>
      constructor
      · rintro ⟨m, hm⟩
        cases hm
      · rintro ⟨x, hx⟩
        cases hx

theorem ofNumeral_minusZero :
    ofNumeral? ['-', '0'] = some (.float (.zero true)) := by decide +kernel

end MachineNumber

namespace Number

variable {p : Policy}

/-- A text other than `-0` reads as the machine number that JSON makes of it. -/
theorem reading_of_ofNumeral {n : Number p} {m : MachineNumber} (hne : n.text.toList ≠ ['-', '0'])
    (h : MachineNumber.ofNumeral? n.text.toList = some m) : n.reading = .number m := by
  unfold reading toBinary64
  rw [signed_or_unsigned]
  rcases MachineNumber.ofNumeral_cases n.text.toList with
    ⟨k, -, hinteger, hread⟩ | ⟨hfloat, hread⟩
  · rw [hread] at h
    cases h
    rw [hinteger]
  · rw [hfloat.resolve_left hne]
    rw [hread, String.ofList_toList] at h
    cases hvalue : Binary64.ofText n.text with
    | finite x =>
      rw [hvalue] at h
      cases h
      rfl
    | nonFinite w =>
      rw [hvalue] at h
      cases h

/-- JSON text is a number if it is one number token. -/
theorem ofJsonText_eq_ok_iff {text : String} {n : Number p} :
    ofJsonText p text = .ok n ↔ ∃ m, Token.lex text = ⟨[.num m], true⟩ ∧ n = spelled p m := by
  constructor
  · intro h
    unfold ofJsonText at h
    rcases hlex : Token.lex text with ⟨tokens, complete⟩
    rw [hlex] at h
    dsimp only at h
    split at h
    · rename_i m
      split at h
      · rename_i hcomplete
        rw [ofMachine_eq] at h
        cases h
        exact ⟨m, by rw [hcomplete], rfl⟩
      · cases h
    all_goals cases h
  · rintro ⟨m, hlex, rfl⟩
    unfold ofJsonText
    rw [hlex]
    show refusedAsData (ofMachine p m) = _
    rw [ofMachine_eq]
    rfl

/-! ## Agreement -/

/-- Where no space stands, JSON text is a number exactly if it is a numeral in range. -/
theorem exists_ofJsonText_iff {text : String} (hspace : ∀ c ∈ text.toList, isJsonSpace c = false) :
    (∃ n, ofJsonText p text = .ok n) ↔
      IsNumeral text.toList ∧ ∃ m, MachineNumber.ofNumeral? text.toList = some m := by
  constructor
  · rintro ⟨n, h⟩
    obtain ⟨m, hlex, -⟩ := ofJsonText_eq_ok_iff.1 h
    obtain ⟨hnumeral, hm⟩ := (Token.lex_eq_number_iff hspace m).1 hlex
    exact ⟨hnumeral, m, hm⟩
  · rintro ⟨hnumeral, m, hm⟩
    exact ⟨_, ofJsonText_eq_ok_iff.2 ⟨m, (Token.lex_eq_number_iff hspace m).2 ⟨hnumeral, hm⟩, rfl⟩⟩

/-- A text without space is kept as a safe number exactly if it is read as one from JSON, and both
numbers convert to one machine number, of the same kind and the same bits, without a record. Of `-0`
alone the text is the integer 0, and JSON reads the float -0.0. -/
theorem readers_agree (text : String) (hspace : ∀ c ∈ text.toList, isJsonSpace c = false) :
    ((∃ n, ofText .safe text = .ok n) ↔ ∃ m, ofJsonText .safe text = .ok m) ∧
      ∀ n m, ofText .safe text = .ok n → ofJsonText .safe text = .ok m →
        n.text = text ∧
          (text ≠ "-0" →
            ∃ k, n.toDatum = .silent (.num k) ∧ m.toDatum = .silent (.num k)) ∧
          (text = "-0" →
            n.toDatum = .silent (.num (.int ⟨0, by decide, by decide⟩)) ∧
              m.toDatum = .silent (.num (.float ⟨true, 0, by decide⟩))) := by
  constructor
  · rw [exists_ofJsonText_iff hspace]
    constructor
    · rintro ⟨n, h⟩
      obtain ⟨hvalidate, hfinite⟩ := (Numeral.check_eq_ok_iff text).1 (ofText_safe_eq_ok_iff.1 h).1
      have hnumeral := Numeral.validate_eq_ok_iff.1 hvalidate
      exact ⟨hnumeral, (MachineNumber.exists_ofNumeral_iff hnumeral).2 hfinite⟩
    · rintro ⟨hnumeral, hm⟩
      refine ⟨⟨text⟩, ofText_safe_eq_ok_iff.2 ⟨?_, rfl⟩⟩
      rw [Numeral.check_eq_ok_iff]
      exact ⟨Numeral.validate_eq_ok_iff.2 hnumeral,
        (MachineNumber.exists_ofNumeral_iff hnumeral).1 hm⟩
  · intro n m hn hm
    obtain ⟨-, htext⟩ := ofText_safe_eq_ok_iff.1 hn
    obtain ⟨k, hlex, rfl⟩ := ofJsonText_eq_ok_iff.1 hm
    obtain ⟨-, hk⟩ := (Token.lex_eq_number_iff hspace k).1 hlex
    -- both readings are of one text, and the kinds differ at the negative zero alone
    refine ⟨htext, ?_, ?_⟩
    · intro hne
      have hlist : n.text.toList ≠ ['-', '0'] := by
        rw [htext]
        exact fun hzero => hne (String.toList_inj.1 hzero)
      rw [← htext] at hk
      exact ⟨k, toDatum_of_reading (reading_of_ofNumeral hlist hk),
        toDatum_of_reading (reading_spelled k)⟩
    · rintro rfl
      cases MachineNumber.ofNumeral_minusZero.symm.trans hk
      obtain ⟨text⟩ := n
      cases htext
      exact ⟨toDatum_of_reading (by decide +kernel), toDatum_of_reading (reading_spelled _)⟩

/-- A text with an exponent, which JSON spells anew; the negative zero; and a text out of range. -/
theorem readers_agree_respelled :
    ((∀ c ∈ "15E1".toList, isJsonSpace c = false) ∧ ofText .safe "15E1" = .ok ⟨"15E1"⟩ ∧
        ofJsonText .safe "15E1" = .ok ⟨"150.0"⟩ ∧
        ∃ k, (⟨"15E1"⟩ : Number .safe).toDatum = .silent (.num k) ∧
          (⟨"150.0"⟩ : Number .safe).toDatum = .silent (.num k)) ∧
      ((∀ c ∈ "-0".toList, isJsonSpace c = false) ∧
        (⟨"-0"⟩ : Number .safe).toDatum = .silent (.num (.int ⟨0, by decide, by decide⟩)) ∧
        (⟨"-0.0"⟩ : Number .safe).toDatum = .silent (.num (.float ⟨true, 0, by decide⟩))) ∧
      (∀ c ∈ "1e400".toList, isJsonSpace c = false) ∧
        ¬ ∃ m, ofJsonText .safe "1e400" = .ok m := by
  have hnone : ∀ text : String, text.toList.all (!isJsonSpace ·) →
      ∀ c ∈ text.toList, isJsonSpace c = false := by
    intro text htext c hc
    simpa using List.all_eq_true.1 htext c hc
  have hspace := hnone "15E1" (by decide +kernel)
  have hspaceZero := hnone "-0" (by decide +kernel)
  have hspaceLarge := hnone "1e400" (by decide +kernel)
  have hkept : ofText .safe "15E1" = .ok ⟨"15E1"⟩ := by decide +kernel
  have hread : ofJsonText .safe "15E1" = .ok ⟨"150.0"⟩ := by decide +kernel
  have hkeptZero : ofText .safe "-0" = .ok ⟨"-0"⟩ := by decide +kernel
  have hreadZero : ofJsonText .safe "-0" = .ok ⟨"-0.0"⟩ := by decide +kernel
  refine ⟨⟨hspace, hkept, hread, ?_⟩, ⟨hspaceZero, ?_⟩, hspaceLarge, ?_⟩
  · exact ((readers_agree "15E1" hspace).2 _ _ hkept hread).2.1 (by decide)
  · exact ((readers_agree "-0" hspaceZero).2 _ _ hkeptZero hreadZero).2.2 rfl
  · rw [← (readers_agree "1e400" hspaceLarge).1]
    rintro ⟨n, hn⟩
    have hrefused : ofText .safe "1e400" = .error (.outOfRange "1e400") := by decide +kernel
    rw [hrefused] at hn
    cases hn

end Number

end JsonTree
