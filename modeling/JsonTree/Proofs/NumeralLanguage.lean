import JsonTree.Proofs.NumeralScan
import Mathlib.Data.List.Basic

/-!
# The language of the scanner

The scanner accepts the JSON numbers and nothing else. What a text that it accepts looks like is
read off the run over the text: a run over a text is a run over any first part of it, followed by a
run over the rest, and the states that a character leads to or from say what may stand beside it.

- `Numeral.run_append_iff`: a run over two parts.
- `Numeral.isNumeral_iff_run`, `Numeral.validate_eq_ok_iff`: accepted texts and JSON numbers.
- `Numeral.Symbol`: the characters of numerals.
- `Numeral.WellSpelled`: what no numeral goes against.
- `Numeral.validate_decides_language`: the scanner decides the language.
-/

namespace JsonTree

namespace Numeral

open State IsNumeral

variable {s t : State} {c : Char} {cs ds : List Char}

/-! ## Runs in two parts -/

/-- A text is read to its end exactly when its first part is, and from there its second part. -/
theorem run_append_iff :
    run s (cs ++ ds) = (t, []) ↔ ∃ m, run s cs = (m, []) ∧ run m ds = (t, []) := by
  constructor
  · intro h
    induction cs generalizing s with
    | nil => exact ⟨s, rfl, h⟩
    | cons c cs ih =>
      obtain ⟨next, hstep, hrest⟩ := run_cons_iff.1 h
      obtain ⟨m, hcs, hds⟩ := ih hrest
      exact ⟨m, run_cons_iff.2 ⟨next, hstep, hcs⟩, hds⟩
  · rintro ⟨m, hcs, hds⟩
    rw [run_append hcs, hds]

/-- The last step of a run. -/
theorem run_concat_iff :
    run s (cs ++ [c]) = (t, []) ↔ ∃ m, run s cs = (m, []) ∧ m.step? c = some t := by
  rw [run_append_iff]
  refine exists_congr fun m => and_congr_right fun _ => ?_
  rw [run_cons_iff]
  constructor
  · rintro ⟨next, hstep, hnil⟩
    obtain ⟨rfl, -⟩ := Prod.mk.inj hnil
    exact hstep
  · intro hstep
    exact ⟨t, hstep, rfl⟩

/-- A run passes through each character of the text. -/
theorem exists_step_of_run (h : run s (cs ++ c :: ds) = (t, [])) :
    ∃ m next, run s cs = (m, []) ∧ m.step? c = some next ∧ run next ds = (t, []) := by
  obtain ⟨m, hcs, hrest⟩ := run_append_iff.1 h
  obtain ⟨next, hstep, hds⟩ := run_cons_iff.1 hrest
  exact ⟨m, next, hcs, hstep, hds⟩

/-! ## Accepted texts -/

/-- The JSON numbers are the texts that are read to their end in an accepting state. -/
theorem isNumeral_iff_run : IsNumeral cs ↔ ∃ t, t.accepting ∧ run .start cs = (t, []) := by
  constructor
  · exact run_of_isNumeral
  · rintro ⟨t, ht, h⟩
    exact ending_of_run h ht

theorem isNumeral_iff_accepting (h : run .start cs = (t, [])) : IsNumeral cs ↔ t.accepting := by
  rw [isNumeral_iff_run]
  constructor
  · rintro ⟨u, hu, hrun⟩
    rw [h] at hrun
    obtain ⟨rfl, -⟩ := Prod.mk.inj hrun
    exact hu
  · intro ht
    exact ⟨t, ht, h⟩

/-- The scanner accepts the JSON numbers. -/
theorem validate_eq_ok_iff {text : String} : validate text = .ok () ↔ IsNumeral text.toList :=
  ⟨isNumeral_of_validate, validate_of_isNumeral⟩

/-! ## What is read of a character -/

/-- A digit, a sign, a point or the mark of an exponent. -/
def Symbol (c : Char) : Prop := c.isDigit ∨ c ∈ ['-', '+', '.', 'e', 'E']

theorem Symbol.ascii (h : Symbol c) : c.toNat < 128 := by
  rcases h with hdigit | hother
  · have hle : c.val ≤ '9'.val := by
      unfold Char.isDigit at hdigit
      exact of_decide_eq_true (Bool.and_eq_true_iff.1 hdigit).2
    exact Nat.lt_of_le_of_lt (UInt32.le_iff_toNat_le.1 hle) (by decide)
  · have hascii : ['-', '+', '.', 'e', 'E'].all (·.toNat < 128) := by decide
    exact of_decide_eq_true (List.all_eq_true.1 hascii c hother)

namespace Moves

/-- Only symbols are read. -/
theorem symbol (h : Moves s c t) : Symbol c := by
  have hother : ∀ d ∈ ['-', '+', '.', 'e', 'E'], Symbol d := fun d hd => Or.inr hd
  cases h with
  | minus isMinus => exact isMinus ▸ hother '-' (by decide)
  | zero _ isZero => exact Or.inl (isZero ▸ rfl)
  | lead _ isDigit _ => exact Or.inl isDigit
  | whole isDigit => exact Or.inl isDigit
  | point _ isPoint => exact isPoint ▸ hother '.' (by decide)
  | fraction _ isDigit => exact Or.inl isDigit
  | mark _ isMark =>
    rcases isMark with rfl | rfl
    · exact hother 'e' (by decide)
    · exact hother 'E' (by decide)
  | sign isSign =>
    rcases isSign with rfl | rfl
    · exact hother '+' (by decide)
    · exact hother '-' (by decide)
  | exponent _ isDigit => exact Or.inl isDigit

/-- Only a digit completes a numeral. -/
theorem isDigit_of_accepting (h : Moves s c t) (ht : t.accepting) : c.isDigit := by
  cases h with
  | zero _ isZero => exact isZero ▸ rfl
  | lead _ isDigit _ => exact isDigit
  | whole isDigit => exact isDigit
  | fraction _ isDigit => exact isDigit
  | exponent _ isDigit => exact isDigit
  | _ => cases ht

/-- A point is read behind a whole part, and leads to a fraction. -/
theorem of_point (h : Moves s c t) (hc : c = '.') : BehindWhole s ∧ t = .point := by
  have hdigit : ¬ c.isDigit := by
    rw [hc]
    decide
  cases h with
  | point behind _ => exact ⟨behind, rfl⟩
  | minus isMinus => exact absurd (hc.symm.trans isMinus) (by decide)
  | zero _ isZero => exact absurd (hc.symm.trans isZero) (by decide)
  | mark _ isMark => exact absurd (hc ▸ isMark) (by decide)
  | sign isSign => exact absurd (hc ▸ isSign) (by decide)
  | lead _ isDigit _ => exact absurd isDigit hdigit
  | whole isDigit => exact absurd isDigit hdigit
  | fraction _ isDigit => exact absurd isDigit hdigit
  | exponent _ isDigit => exact absurd isDigit hdigit

/-- The mark of an exponent leads to the exponent. -/
theorem of_mark (h : Moves s c t) (hc : c = 'e' ∨ c = 'E') : t = .mark := by
  have hdigit : ¬ c.isDigit := not_isDigit_mark hc
  have hne : c ≠ '-' ∧ c ≠ '0' ∧ c ≠ '.' ∧ c ≠ '+' := by
    rcases hc with rfl | rfl
    · decide
    · decide
  obtain ⟨hminus, hzero, hpoint, hplus⟩ := hne
  cases h with
  | mark _ _ => rfl
  | minus isMinus => exact absurd isMinus hminus
  | zero _ isZero => exact absurd isZero hzero
  | point _ isPoint => exact absurd isPoint hpoint
  | sign isSign => exact absurd isSign (not_or.2 ⟨hplus, hminus⟩)
  | lead _ isDigit _ => exact absurd isDigit hdigit
  | whole isDigit => exact absurd isDigit hdigit
  | fraction _ isDigit => exact absurd isDigit hdigit
  | exponent _ isDigit => exact absurd isDigit hdigit

/-- No digit is read behind a leading zero. -/
theorem not_isDigit_of_zero (h : Moves .zero c t) : ¬ c.isDigit := by
  cases h with
  | zero before _ => exact before.elim nofun nofun
  | lead before _ _ => exact before.elim nofun nofun
  | point _ isPoint =>
    rw [isPoint]
    decide
  | fraction behind _ => exact absurd behind (by decide)
  | mark _ isMark => exact not_isDigit_mark isMark
  | exponent behind _ => exact absurd behind (by decide)

end Moves

theorem symbol_of_run (h : run s cs = (t, [])) : ∀ c ∈ cs, Symbol c := by
  intro c hc
  obtain ⟨before, after, rfl⟩ := List.append_of_mem hc
  obtain ⟨m, next, -, hstep, -⟩ := exists_step_of_run h
  exact (moves_of_step hstep).symbol

/-- What is read up to an accepting state ends in a digit. -/
theorem exists_digit_of_accepting (h : run .start cs = (t, [])) (ht : t.accepting) :
    ∃ before d, cs = before ++ [d] ∧ d.isDigit := by
  rcases List.eq_nil_or_concat' cs with rfl | ⟨before, d, rfl⟩
  · cases h
    cases ht
  · obtain ⟨m, -, hstep⟩ := run_concat_iff.1 h
    exact ⟨before, d, rfl, (moves_of_step hstep).isDigit_of_accepting ht⟩

/-! ## What stands behind a point and a mark -/

/-- Digits end at the next part of a numeral, so at least one stands in front of what follows. -/
theorem exists_digit_of_ending_point (h : Ending .point cs) :
    ∃ d after, cs = d :: after ∧ d.isDigit := by
  obtain ⟨ds, es, ⟨hne, hdigits⟩, -, rfl⟩ := h
  cases ds with
  | nil => exact absurd rfl hne
  | cons d ds => exact ⟨d, ds ++ es, rfl, hdigits d List.mem_cons_self⟩

/-! ## What no numeral goes against -/

/-- No foreign character, no leading plus, no leading zero, no bare point and no bare mark. -/
structure WellSpelled (cs : List Char) : Prop where
  /-- Every character is a digit, a sign, a point or the mark of an exponent. -/
  symbols : ∀ c ∈ cs, Symbol c
  /-- There is a last character, and it is a digit. -/
  ends : ∃ before d, cs = before ++ [d] ∧ d.isDigit
  /-- The first character is no plus. -/
  unsigned : ∀ after, cs ≠ '+' :: after
  /-- No digit follows a leading zero. -/
  leadingZero : ∀ d after, d.isDigit → cs ≠ '0' :: d :: after ∧ cs ≠ '-' :: '0' :: d :: after
  /-- A point stands between two digits. -/
  point : ∀ before after, cs = before ++ '.' :: after →
    (∃ before' d, before = before' ++ [d] ∧ d.isDigit) ∧ ∃ d after', after = d :: after' ∧ d.isDigit
  /-- A mark is followed by an optional sign and digits, to the end of the text. -/
  mark : ∀ before mark after, mark = 'e' ∨ mark = 'E' → cs = before ++ mark :: after →
    Exponent (mark :: after)

/-- A JSON number goes against none of this. -/
theorem wellSpelled_of_isNumeral (h : IsNumeral cs) : WellSpelled cs := by
  obtain ⟨t, ht, hrun⟩ := run_of_isNumeral h
  refine ⟨symbol_of_run hrun, exists_digit_of_accepting hrun ht, ?_, ?_, ?_, ?_⟩
  · rintro after rfl
    cases hrun
  · intro d after hd
    -- with or without a minus, the digit would have to be read behind the zero
    have hzero : run .zero (d :: after) ≠ (t, []) := by
      intro hrest
      obtain ⟨next, hstep, -⟩ := run_cons_iff.1 hrest
      exact (moves_of_step hstep).not_isDigit_of_zero hd
    constructor
    · rintro rfl
      exact hzero hrun
    · rintro rfl
      exact hzero hrun
  · rintro before after rfl
    obtain ⟨m, next, hbefore, hstep, hafter⟩ := exists_step_of_run hrun
    obtain ⟨hm, rfl⟩ := (moves_of_step hstep).of_point rfl
    have haccepting : m.accepting := by
      rcases hm with rfl | rfl
      all_goals rfl
    exact ⟨exists_digit_of_accepting hbefore haccepting,
      exists_digit_of_ending_point (ending_of_run hafter ht)⟩
  · rintro before mark after hmark rfl
    obtain ⟨m, next, -, hstep, hafter⟩ := exists_step_of_run hrun
    obtain rfl := (moves_of_step hstep).of_mark hmark
    exact exponent_of_ending_mark hmark (ending_of_run hafter ht)

/-- The scanner accepts exactly the JSON numbers, whatever the text; and so it accepts no text with
a foreign character, a leading plus, a leading zero, a bare point or a bare mark. -/
theorem validate_decides_language (text : String) :
    (validate text = .ok () ↔ IsNumeral text.toList) ∧
      (validate text = .ok () → WellSpelled text.toList) := by
  refine ⟨validate_eq_ok_iff, ?_⟩
  intro h
  exact wellSpelled_of_isNumeral (validate_eq_ok_iff.1 h)

theorem validate_decides_language_all_parts :
    validate "-10.50E-007" = .ok () ∧ IsNumeral "-10.50E-007".toList ∧
      WellSpelled "-10.50E-007".toList := by
  have h : validate "-10.50E-007" = .ok () := by decide +kernel
  obtain ⟨hiff, hspelled⟩ := validate_decides_language "-10.50E-007"
  exact ⟨h, hiff.1 h, hspelled h⟩

end Numeral

end JsonTree
