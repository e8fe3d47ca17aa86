import JsonTree.Proofs.NumeralLanguage
import Mathlib.Data.String.Basic

/-!
# Where a refused text goes wrong

A text is viable if something can be put behind it that makes it a JSON number. The scanner reads
the viable texts to their end, so where it stops the longest viable prefix ends. The refusal says
which way the text goes wrong there: it is too short, it has a digit behind a leading zero, or the
next character cannot stand where it does.

- `IsNumeral.Viable`, `Numeral.viable_iff_run`: the texts that are read to their end.
- `Numeral.run_eq_stuck_iff`: where a run stops in the middle of a text.
- `Numeral.Refused`, `Numeral.refused_of_validate`: how the scanner refuses a text.
- `Numeral.PointsAt`: what a refusal says of the character that it points at.
- `Numeral.refusal_locates`: every refusal, by the text alone.
-/

namespace JsonTree

/-- Something behind the characters makes them a JSON number. -/
def IsNumeral.Viable (cs : List Char) : Prop := ∃ rest, IsNumeral (cs ++ rest)

namespace Numeral

open State IsNumeral

variable {s t : State} {c : Char} {cs before rest : List Char} {text : String}

/-! ## Viable texts -/

/-- From every state a numeral can be completed: with one digit, if it is none yet. -/
theorem exists_accepting_run (s : State) : ∃ rest t, t.accepting ∧ run s rest = (t, []) := by
  cases s with
  | start => exact ⟨['0'], .zero, rfl, rfl⟩
  | minus => exact ⟨['0'], .zero, rfl, rfl⟩
  | zero => exact ⟨[], .zero, rfl, rfl⟩
  | whole => exact ⟨[], .whole, rfl, rfl⟩
  | point => exact ⟨['0'], .fraction, rfl, rfl⟩
  | fraction => exact ⟨[], .fraction, rfl, rfl⟩
  | mark => exact ⟨['0'], .exponent, rfl, rfl⟩
  | sign => exact ⟨['0'], .exponent, rfl, rfl⟩
  | exponent => exact ⟨[], .exponent, rfl, rfl⟩

/-- The viable texts are the texts that are read to their end. -/
theorem viable_iff_run : Viable cs ↔ ∃ s, run .start cs = (s, []) := by
  constructor
  · rintro ⟨rest, h⟩
    obtain ⟨t, -, hrun⟩ := run_of_isNumeral h
    obtain ⟨s, hs, -⟩ := run_append_iff.1 hrun
    exact ⟨s, hs⟩
  · rintro ⟨s, hs⟩
    obtain ⟨rest, t, ht, hrest⟩ := exists_accepting_run s
    exact ⟨rest, isNumeral_iff_run.2 ⟨t, ht, run_append_iff.2 ⟨s, hs, hrest⟩⟩⟩

/-- A run stops at the first character that may not stand where it does. -/
theorem run_eq_stuck_iff :
    run s cs = (t, c :: rest) ↔
      ∃ before, cs = before ++ c :: rest ∧ run s before = (t, []) ∧ t.step? c = none := by
  constructor
  · intro h
    induction cs generalizing s with
    | nil => cases h
    | cons d ds ih =>
      unfold run at h
      cases hstep : s.step? d with
      | none =>
        rw [hstep] at h
        cases h
        exact ⟨[], rfl, rfl, hstep⟩
      | some next =>
        rw [hstep] at h
        obtain ⟨before, rfl, hrun, hstuck⟩ := ih h
        exact ⟨d :: before, rfl, run_cons_iff.2 ⟨next, hstep, hrun⟩, hstuck⟩
  · rintro ⟨before, rfl, hrun, hstuck⟩
    rw [run_append hrun, run, hstuck]

/-- Nothing that follows a character that was not taken makes up for it. -/
theorem not_viable_of_stuck (hrun : run .start before = (s, [])) (hstuck : s.step? c = none)
    (rest : List Char) : ¬ Viable (before ++ c :: rest) := by
  intro hviable
  obtain ⟨t, ht⟩ := viable_iff_run.1 hviable
  rw [run_eq_stuck_iff.2 ⟨before, rfl, hrun, hstuck⟩] at ht
  cases ht

/-! ## The refusals of the scanner -/

/-- How the scanner refuses a text: it is empty, it stops too early, a digit follows a leading zero,
or a character is stray. -/
inductive Refused (text : String) : NumberError → Prop where
  | empty (isEmpty : text.toList = []) : Refused text .empty
  | unfinished {s : State} (nonempty : text.toList ≠ [])
      (isRead : run .start text.toList = (s, [])) (notAccepting : ¬ s.accepting) :
      Refused text (.unexpectedEnd text .digit)
  | leadingZero {c : Char} {before rest : List Char}
      (split : text.toList = before ++ c :: rest) (isRead : run .start before = (.zero, []))
      (isDigit : c.isDigit) : Refused text (.leadingZero text)
  | stray {s : State} {c : Char} {before rest : List Char}
      (split : text.toList = before ++ c :: rest) (isRead : run .start before = (s, []))
      (isStuck : s.step? c = none) (notLeadingZero : ¬ (s = .zero ∧ c.isDigit)) :
      Refused text (.unexpectedChar text before.length c s.expected)

/-- Every refusal has one of the listed causes. -/
theorem refused_of_validate {e : NumberError} (h : validate text = .error e) : Refused text e := by
  unfold validate at h
  split at h
  · rename_i hempty
    cases h
    exact .empty hempty
  · rename_i hnonempty
    split at h
    · rename_i s hrun
      split at h
      · cases h
      · rename_i hs
        have hexpected : s.expected = .digit := if_neg hs
        cases h
        rw [hexpected]
        exact .unfinished hnonempty hrun hs
    · rename_i s c rest hrun
      -- what was read before is the part that the reader got through from its start
      obtain ⟨before, hsplit, hbefore, hstuck⟩ := run_eq_stuck_iff.1 hrun
      cases h
      unfold refusal
      split
      · rename_i hzero
        obtain ⟨rfl, hdigit⟩ := hzero
        exact .leadingZero hsplit hbefore hdigit
      · rename_i hzero
        have hlength : text.toList.length - (rest.length + 1) = before.length := by
          rw [hsplit, List.length_append, List.length_cons, Nat.add_sub_cancel]
        rw [hlength]
        exact .stray hsplit hbefore hstuck hzero

/-! ## Leading zeros -/

/-- A digit follows a zero that only a minus may precede. -/
def HasLeadingZero (cs : List Char) : Prop :=
  ∃ d rest, d.isDigit ∧ (cs = '0' :: d :: rest ∨ cs = '-' :: '0' :: d :: rest)

/-- Only the empty text leaves the reader at its start. -/
theorem eq_nil_of_run_start (h : run .start cs = (.start, [])) : cs = [] := by
  rcases List.eq_nil_or_concat' cs with rfl | ⟨ds, d, rfl⟩
  · rfl
  · obtain ⟨m, -, hstep⟩ := run_concat_iff.1 h
    cases moves_of_step hstep

/-- Only a minus leads behind a minus. -/
theorem eq_minus_of_run (h : run .start cs = (.minus, [])) : cs = ['-'] := by
  rcases List.eq_nil_or_concat' cs with rfl | ⟨ds, d, rfl⟩
  · cases h
  · obtain ⟨m, hds, hstep⟩ := run_concat_iff.1 h
    cases moves_of_step hstep with
    | minus isMinus => rw [eq_nil_of_run_start hds, isMinus, List.nil_append]

/-- A leading zero is all that is read up to it, but for a minus. -/
theorem run_eq_zero_iff : run .start cs = (.zero, []) ↔ cs = ['0'] ∨ cs = ['-', '0'] := by
  constructor
  · intro h
    rcases List.eq_nil_or_concat' cs with rfl | ⟨ds, d, rfl⟩
    · cases h
    · obtain ⟨m, hds, hstep⟩ := run_concat_iff.1 h
      cases moves_of_step hstep with
      | zero before isZero =>
        rw [isZero]
        rcases before with rfl | rfl
        · rw [eq_nil_of_run_start hds]
          exact Or.inl rfl
        · rw [eq_minus_of_run hds]
          exact Or.inr rfl
  · rintro (rfl | rfl)
    all_goals rfl

theorem hasLeadingZero_iff :
    HasLeadingZero cs ↔ ∃ before d rest, cs = before ++ d :: rest ∧
      run .start before = (.zero, []) ∧ d.isDigit := by
  constructor
  · rintro ⟨d, rest, hd, rfl | rfl⟩
    · exact ⟨['0'], d, rest, rfl, rfl, hd⟩
    · exact ⟨['-', '0'], d, rest, rfl, rfl, hd⟩
  · rintro ⟨before, d, rest, rfl, hrun, hd⟩
    refine ⟨d, rest, hd, ?_⟩
    rcases run_eq_zero_iff.1 hrun with rfl | rfl
    · exact Or.inl rfl
    · exact Or.inr rfl

/-- No digit is taken behind a leading zero. -/
theorem step_zero_of_isDigit (h : c.isDigit) : State.step? .zero c = none := by
  by_contra hstep
  obtain ⟨t, ht⟩ := Option.ne_none_iff_exists'.1 hstep
  exact (moves_of_step ht).not_isDigit_of_zero h

theorem not_viable_of_hasLeadingZero (h : HasLeadingZero cs) : ¬ Viable cs := by
  obtain ⟨before, d, rest, rfl, hrun, hd⟩ := hasLeadingZero_iff.1 h
  exact not_viable_of_stuck hrun (step_zero_of_isDigit hd) rest

/-! ## Each way of going wrong, by the text alone -/

namespace Refused

variable {e : NumberError}

/-- The cause for the empty text is given to no other. -/
theorem eq_empty_iff (h : Refused text e) : e = .empty ↔ text.toList = [] := by
  cases h with
  | empty isEmpty => exact iff_of_true rfl isEmpty
  | unfinished nonempty _ _ => exact iff_of_false nofun nonempty
  | leadingZero split _ _ => exact iff_of_false nofun (by simp [split])
  | stray split _ _ _ => exact iff_of_false nofun (by simp [split])

/-- The text is cut short: it is viable, but neither empty nor a JSON number. -/
theorem eq_unexpectedEnd_iff (h : Refused text e) :
    e = .unexpectedEnd text .digit ↔
      text.toList ≠ [] ∧ Viable text.toList ∧ ¬ IsNumeral text.toList := by
  cases h with
  | empty isEmpty => exact iff_of_false nofun fun h => h.1 isEmpty
  | unfinished nonempty isRead notAccepting =>
    refine iff_of_true rfl ⟨nonempty, viable_iff_run.2 ⟨_, isRead⟩, ?_⟩
    rwa [isNumeral_iff_accepting isRead]
  | leadingZero split isRead isDigit =>
    have hzero := hasLeadingZero_iff.2 ⟨_, _, _, split, isRead, isDigit⟩
    exact iff_of_false nofun fun h => not_viable_of_hasLeadingZero hzero h.2.1
  | stray split isRead isStuck _ =>
    refine iff_of_false nofun fun h => ?_
    rw [split] at h
    exact not_viable_of_stuck isRead isStuck _ h.2.1

/-- The cause for a leading zero is given exactly where one stands. -/
theorem eq_leadingZero_iff (h : Refused text e) :
    e = .leadingZero text ↔ HasLeadingZero text.toList := by
  cases h with
  | empty isEmpty =>
    refine iff_of_false nofun fun h => ?_
    obtain ⟨d, rest, -, heq | heq⟩ := h
    · rw [isEmpty] at heq
      cases heq
    · rw [isEmpty] at heq
      cases heq
  | unfinished _ isRead _ =>
    exact iff_of_false nofun fun h =>
      not_viable_of_hasLeadingZero h (viable_iff_run.2 ⟨_, isRead⟩)
  | leadingZero split isRead isDigit =>
    exact iff_of_true rfl (hasLeadingZero_iff.2 ⟨_, _, _, split, isRead, isDigit⟩)
  | @stray s c before rest split isRead isStuck notLeadingZero =>
    refine iff_of_false nofun fun h => ?_
    obtain ⟨before', d, rest', split', isRead', isDigit⟩ := hasLeadingZero_iff.1 h
    -- a run stops at one place only
    have hrun := run_eq_stuck_iff.2 ⟨before, split, isRead, isStuck⟩
    rw [run_eq_stuck_iff.2 ⟨before', split', isRead', step_zero_of_isDigit isDigit⟩] at hrun
    cases hrun
    exact notLeadingZero ⟨rfl, isDigit⟩

end Refused

/-! ## Byte offsets -/

/-- What was read before a refusal is plain ASCII, so the offset in bytes is the number of
characters. -/
theorem utf8ByteSize_of_ascii (h : ∀ c ∈ cs, c.toNat < 128) :
    (String.ofList cs).utf8ByteSize = cs.length := by
  induction cs with
  | nil => rfl
  | cons c cs ih =>
    rw [List.forall_mem_cons] at h
    have hsize : c.utf8Size = 1 := by
      rw [Char.utf8Size_eq_one_iff, UInt32.le_iff_toNat_le]
      exact Nat.le_of_lt_succ h.1
    rw [String.utf8ByteSize_ofList] at ih ⊢
    rw [String.utf8Len_cons, ih h.2, hsize, List.length_cons]

/-- The byte offset of a character: a boundary inside the text, at which the character stands. -/
theorem boundary_of_split (split : text.toList = before ++ c :: rest) :
    String.Pos.Raw.IsValid text ⟨(String.ofList before).utf8ByteSize⟩ ∧
      (String.ofList before).utf8ByteSize < text.utf8ByteSize ∧
      String.Pos.Raw.get text ⟨(String.ofList before).utf8ByteSize⟩ = c := by
  obtain rfl : text = String.ofList (before ++ c :: rest) := by
    rw [← split, String.ofList_toList]
  refine ⟨?_, ?_, ?_⟩
  · exact String.Pos.Raw.isValid_iff_exists_append.2
      ⟨String.ofList before, String.ofList (c :: rest), String.ofList_append, rfl⟩
  · have hpos : 0 < c.utf8Size := c.utf8Size_pos
    rw [String.utf8ByteSize_ofList, String.utf8ByteSize_ofList, String.utf8Len_append,
      String.utf8Len_cons]
    omega
  · rw [String.utf8ByteSize_ofList, String.get_of_valid]
    rfl

/-! ## The character that a refusal points at -/

/-- What a refusal says of the character that it points at: `found` stands `offset` bytes into the
text, behind `before`, which is the longest viable prefix of the text. -/
structure PointsAt (text : String) (offset : Nat) (found : Char) (expected : Expectation)
    (before after : List Char) : Prop where
  split : text.toList = before ++ found :: after
  offset_eq : offset = (String.ofList before).utf8ByteSize
  boundary : String.Pos.Raw.IsValid text ⟨offset⟩
  inside : offset < text.utf8ByteSize
  stands : String.Pos.Raw.get text ⟨offset⟩ = found
  ascii : ∀ c ∈ before, c.toNat < 128
  viable : Viable before
  stuck : ¬ Viable (before ++ [found])
  endExpected : expected.phrase = "end of number" ↔ IsNumeral before
  digitExpected : expected.phrase = "a digit" ↔ ¬ IsNumeral before

/-- A digit is expected exactly where a numeral may not end. -/
theorem phrase_expected (s : State) :
    (s.expected.phrase = "end of number" ↔ s.accepting) ∧
      (s.expected.phrase = "a digit" ↔ ¬ s.accepting) := by
  cases s with
  | _ => decide

theorem pointsAt_of_stuck (split : text.toList = before ++ c :: rest)
    (isRead : run .start before = (s, [])) (isStuck : s.step? c = none) :
    PointsAt text before.length c s.expected before rest := by
  have hascii : ∀ d ∈ before, d.toNat < 128 := fun d hd => (symbol_of_run isRead d hd).ascii
  have hoffset : before.length = (String.ofList before).utf8ByteSize :=
    (utf8ByteSize_of_ascii hascii).symm
  obtain ⟨hboundary, hinside, hstands⟩ := boundary_of_split split
  obtain ⟨hend, hdigit⟩ := phrase_expected s
  rw [← hoffset] at hboundary hinside hstands
  refine ⟨split, hoffset, hboundary, hinside, hstands, hascii, viable_iff_run.2 ⟨s, isRead⟩,
    not_viable_of_stuck isRead isStuck [], ?_, ?_⟩
  · rw [hend, isNumeral_iff_accepting isRead]
  · rw [hdigit, isNumeral_iff_accepting isRead]

/-! ## The refusals -/

/-- A viable text that is no JSON number is a proper prefix of one. -/
theorem viable_and_not_isNumeral_iff :
    Viable cs ∧ ¬ IsNumeral cs ↔ (∃ rest, rest ≠ [] ∧ IsNumeral (cs ++ rest)) ∧ ¬ IsNumeral cs := by
  refine and_congr_left fun hcs => ?_
  constructor
  · rintro ⟨rest, hrest⟩
    refine ⟨rest, ?_, hrest⟩
    rintro rfl
    rw [List.append_nil] at hrest
    exact hcs hrest
  · rintro ⟨rest, -, hrest⟩
    exact ⟨rest, hrest⟩

/-- What a refusal says, by the text alone. It names the text. It reports an empty text as empty; a
proper prefix of a JSON number that is none itself as one that lacks a digit; a digit behind a
leading zero as such; and in every other text the character behind the longest viable prefix, with
its byte offset and with what would have been welcome there. -/
theorem refusal_locates {text : String} {e : NumberError} (h : validate text = .error e) :
    e.literal? = some text ∧
      (e = .empty ↔ text = "") ∧
      (e = .unexpectedEnd text .digit ↔ text ≠ "" ∧
        (∃ rest, rest ≠ [] ∧ IsNumeral (text.toList ++ rest)) ∧ ¬ IsNumeral text.toList) ∧
      (∀ literal expected, e = .unexpectedEnd literal expected →
        literal = text ∧ expected.phrase = "a digit") ∧
      (e = .leadingZero text ↔ HasLeadingZero text.toList) ∧
      (e = .empty ∨ e = .unexpectedEnd text .digit ∨ e = .leadingZero text ∨
        ∃ offset found expected before after, e = .unexpectedChar text offset found expected ∧
          PointsAt text offset found expected before after) := by
  have hrefused := refused_of_validate h
  have hempty : text.toList = [] ↔ text = "" := String.toList_eq_nil_iff
  refine ⟨?_, hrefused.eq_empty_iff.trans hempty, ?_, ?_, hrefused.eq_leadingZero_iff, ?_⟩
  · cases hrefused with
    | empty isEmpty => exact congrArg some (hempty.1 isEmpty).symm
    | _ => rfl
  · rw [hrefused.eq_unexpectedEnd_iff, viable_and_not_isNumeral_iff, ne_eq, hempty]
  · rintro literal expected rfl
    cases hrefused
    exact ⟨rfl, rfl⟩
  · cases hrefused with
    | empty isEmpty => exact Or.inl rfl
    | unfinished _ _ _ => exact Or.inr (Or.inl rfl)
    | leadingZero _ _ _ => exact Or.inr (Or.inr (Or.inl rfl))
    | stray split isRead isStuck _ =>
      exact Or.inr (Or.inr (Or.inr ⟨_, _, _, _, _, rfl, pointsAt_of_stuck split isRead isStuck⟩))

/-- A stray character of two bytes, a digit behind a leading zero, and a text that is cut short. -/
theorem refusal_locates_each_kind :
    (validate "-1.5Eé7" = .error (.unexpectedChar "-1.5Eé7" 5 'é' .digit) ∧
        ∃ before after, PointsAt "-1.5Eé7" 5 'é' .digit before after) ∧
      (validate "-07" = .error (.leadingZero "-07") ∧ HasLeadingZero "-07".toList) ∧
      (validate "1e+" = .error (.unexpectedEnd "1e+" .digit) ∧
        ∃ rest, rest ≠ [] ∧ IsNumeral ("1e+".toList ++ rest)) := by
  have hstray : validate "-1.5Eé7" = .error (.unexpectedChar "-1.5Eé7" 5 'é' .digit) := by
    decide +kernel
  have hzero : validate "-07" = .error (.leadingZero "-07") := by decide +kernel
  have hend : validate "1e+" = .error (.unexpectedEnd "1e+" .digit) := by decide +kernel
  refine ⟨⟨hstray, ?_⟩, ⟨hzero, ?_⟩, ⟨hend, ?_⟩⟩
  · obtain ⟨-, -, -, -, -, hkind⟩ := refusal_locates hstray
    rcases hkind with h | h | h | ⟨offset, found, expected, before, after, h, hpoints⟩
    · cases h
    · cases h
    · cases h
    · cases h
      exact ⟨before, after, hpoints⟩
  · obtain ⟨-, -, -, -, hleading, -⟩ := refusal_locates hzero
    exact hleading.1 rfl
  · obtain ⟨-, -, hshort, -⟩ := refusal_locates hend
    exact (hshort.1 rfl).2.1

end Numeral

end JsonTree
