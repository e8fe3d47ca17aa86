import JsonTree.Numeral.Grammar
import JsonTree.Numeral.Scan
import Mathlib.Tactic.Cases

/-!
# The scanner reads what the grammar derives

Each part of the grammar takes the scanner from one set of states to the next, whatever follows the
part; put together, every JSON number is read to its end in an accepting state.

- `Numeral.run_append`: reading goes on where it stopped.
- `Numeral.run_of_isNumeral`: a JSON number is read to its end, in an accepting state.
- `Numeral.validate_of_isNumeral`: a JSON number is accepted.
- `Numeral.Moves`: the moves of the scanner, a rule for each; `Numeral.moves_of_step`: its steps are
  among them.
- `Numeral.isNumeral_of_validate`: nothing else is accepted, by what may still follow each state.
-/

namespace JsonTree

namespace Numeral

open State IsNumeral

/-! ## Runs -/

/-- A character that a state takes leads to the next state. -/
theorem run_cons {s next : State} {c : Char} (h : s.step? c = some next) (cs : List Char) :
    run s (c :: cs) = run next cs := by
  rw [run, h]

/-- A text is read to its end exactly if its first character is taken and the rest is read to its
end. -/
theorem run_cons_iff {s t : State} {c : Char} {cs : List Char} :
    run s (c :: cs) = (t, []) ↔ ∃ next, s.step? c = some next ∧ run next cs = (t, []) := by
  constructor
  · intro h
    unfold run at h
    cases hstep : s.step? c with
    | none =>
      rw [hstep] at h
      cases h
    | some next =>
      rw [hstep] at h
      exact ⟨next, rfl, h⟩
  · rintro ⟨next, hstep, h⟩
    rw [run_cons hstep, h]

/-- Reading goes on where it stopped. -/
theorem run_append {s t : State} {cs : List Char} (h : run s cs = (t, [])) (ds : List Char) :
    run s (cs ++ ds) = run t ds := by
  induction cs generalizing s with
  | nil =>
    simp only [run, Prod.mk.injEq, and_true] at h
    rw [List.nil_append, h]
  | cons c cs ih =>
    obtain ⟨next, hstep, hrest⟩ := run_cons_iff.1 h
    rw [List.cons_append, run_cons hstep]
    exact ih hrest

/-- A state that digits do not leave. -/
theorem run_digits {s : State} (hs : ∀ c : Char, c.isDigit → s.step? c = some s)
    {cs : List Char} (h : ∀ c ∈ cs, c.isDigit) : run s cs = (s, []) := by
  induction cs with
  | nil => rfl
  | cons c cs ih =>
    rw [List.forall_mem_cons] at h
    rw [run_cons (hs c h.1)]
    exact ih h.2

/-- A state that one digit leaves for a state that digits do not leave. -/
theorem run_someDigits {s t : State} (hs : ∀ c : Char, c.isDigit → s.step? c = some t)
    (ht : ∀ c : Char, c.isDigit → t.step? c = some t) {cs : List Char}
    (h : IsNumeral.Digits cs) : run s cs = (t, []) := by
  obtain ⟨hne, hdigits⟩ := h
  cases cs with
  | nil => exact absurd rfl hne
  | cons c cs =>
    rw [List.forall_mem_cons] at hdigits
    rw [run_cons (hs c hdigits.1)]
    exact run_digits ht hdigits.2

theorem step_whole {c : Char} (h : c.isDigit) : State.step? .whole c = some .whole := if_pos h

theorem step_point {c : Char} (h : c.isDigit) : State.step? .point c = some .fraction := if_pos h

theorem step_fraction {c : Char} (h : c.isDigit) : State.step? .fraction c = some .fraction :=
  if_pos h

theorem step_sign {c : Char} (h : c.isDigit) : State.step? .sign c = some .exponent := if_pos h

theorem step_exponent {c : Char} (h : c.isDigit) : State.step? .exponent c = some .exponent :=
  if_pos h

/-- Behind a mark, a digit starts the exponent, since it is no sign. -/
theorem step_mark {c : Char} (h : c.isDigit) : State.step? .mark c = some .exponent := by
  have hsign : ¬ (c = '+' ∨ c = '-') := by
    rintro (rfl | rfl)
    · exact absurd h (by decide)
    · exact absurd h (by decide)
  exact (if_neg hsign).trans (if_pos h)

/-! ## The parts of a numeral -/

/-- The states behind a whole part, and behind a fraction or none. -/
def BehindWhole (s : State) : Prop := s = .zero ∨ s = .whole

/-- The states behind a fraction, or behind a whole part without one. -/
def BehindFraction (s : State) : Prop := BehindWhole s ∨ s = .fraction

/-- A whole part is read from the start as it is behind a minus. -/
theorem run_whole {cs : List Char} (h : IsNumeral.Whole cs) :
    ∃ s, BehindWhole s ∧ run .start cs = (s, []) ∧ run .minus cs = (s, []) := by
  cases h with
  | zero => exact ⟨.zero, Or.inl rfl, rfl, rfl⟩
  | @positive c cs lead nonzero digits =>
    have hlead : lead? c = some .whole := by
      unfold lead?
      rw [if_neg nonzero, if_pos lead]
    have hstart : State.step? .start c = some .whole := by
      have hminus : c ≠ '-' := by
        rintro rfl
        exact absurd lead (by decide)
      exact (if_neg hminus).trans hlead
    refine ⟨.whole, Or.inr rfl, ?_, ?_⟩
    · rw [run_cons hstart]
      exact run_digits (fun _ => step_whole) digits
    · rw [run_cons (show State.step? .minus c = some .whole from hlead)]
      exact run_digits (fun _ => step_whole) digits

/-- A fraction, or none, is read behind a whole part. -/
theorem run_fraction {s : State} (hs : BehindWhole s) {cs : List Char}
    (h : IsNumeral.Fraction cs) : ∃ t, BehindFraction t ∧ run s cs = (t, []) := by
  cases h with
  | absent => exact ⟨s, Or.inl hs, rfl⟩
  | @present cs digits =>
    have hpoint : s.step? '.' = some .point := by
      rcases hs with rfl | rfl
      · rfl
      · rfl
    refine ⟨.fraction, Or.inr rfl, ?_⟩
    rw [run_cons hpoint]
    exact run_someDigits (fun _ => step_point) (fun _ => step_fraction) digits

/-- A mark is taken behind a fraction, and behind a whole part without one. -/
theorem step_mark_of_behindFraction {s : State} (hs : BehindFraction s) {mark : Char}
    (h : mark = 'e' ∨ mark = 'E') : s.step? mark = some .mark := by
  rcases hs with (rfl | rfl) | rfl
  all_goals
    rcases h with rfl | rfl
    · rfl
    · rfl

/-- An exponent, or none, ends a numeral. -/
theorem run_exponent {s : State} (hs : BehindFraction s) {cs : List Char}
    (h : IsNumeral.Exponent cs) : ∃ t, t.accepting ∧ run s cs = (t, []) := by
  cases h with
  | absent =>
    refine ⟨s, ?_, rfl⟩
    rcases hs with (rfl | rfl) | rfl
    all_goals rfl
  | unsigned isMark digits =>
    refine ⟨.exponent, rfl, ?_⟩
    rw [run_cons (step_mark_of_behindFraction hs isMark)]
    exact run_someDigits (fun _ => step_mark) (fun _ => step_exponent) digits
  | @signed mark sign cs isMark isSign digits =>
    refine ⟨.exponent, rfl, ?_⟩
    have hsign : State.step? .mark sign = some .sign := if_pos isSign
    rw [run_cons (step_mark_of_behindFraction hs isMark), run_cons hsign]
    exact run_someDigits (fun _ => step_sign) (fun _ => step_exponent) digits

/-! ## Whole numerals -/

/-- A JSON number is read to its end, in an accepting state. -/
theorem run_of_isNumeral {cs : List Char} (h : IsNumeral cs) :
    ∃ s, s.accepting ∧ run .start cs = (s, []) := by
  cases h with
  | unsigned isWhole isFraction isExponent =>
    obtain ⟨s, hs, hstart, -⟩ := run_whole isWhole
    obtain ⟨t, ht, hfraction⟩ := run_fraction hs isFraction
    obtain ⟨u, hu, hexponent⟩ := run_exponent ht isExponent
    refine ⟨u, hu, ?_⟩
    rw [List.append_assoc, run_append hstart, run_append hfraction, hexponent]
  | negative isWhole isFraction isExponent =>
    obtain ⟨s, hs, -, hminus⟩ := run_whole isWhole
    obtain ⟨t, ht, hfraction⟩ := run_fraction hs isFraction
    obtain ⟨u, hu, hexponent⟩ := run_exponent ht isExponent
    refine ⟨u, hu, ?_⟩
    rw [run_cons (show State.step? .start '-' = some .minus from rfl), List.append_assoc,
      run_append hminus, run_append hfraction, hexponent]

/-- A JSON number is accepted. -/
theorem validate_of_isNumeral {text : String} (h : IsNumeral text.toList) :
    validate text = .ok () := by
  obtain ⟨s, hs, hrun⟩ := run_of_isNumeral h
  have hne : text.toList ≠ [] := by
    intro hnil
    rw [hnil] at hrun
    cases hrun
    exact absurd hs (by decide)
  unfold validate
  rw [if_neg hne, hrun]
  exact if_pos hs

/-! ## The moves -/

/-- The states in which a numeral may begin, or begin behind its minus. -/
def BeforeWhole (s : State) : Prop := s = .start ∨ s = .minus

/-- The moves of the scanner, named for the state that they lead to. -/
inductive Moves : State → Char → State → Prop where
  | minus {c : Char} (isMinus : c = '-') : Moves .start c .minus
  | zero {s : State} {c : Char} (before : BeforeWhole s) (isZero : c = '0') : Moves s c .zero
  | lead {s : State} {c : Char} (before : BeforeWhole s) (isDigit : c.isDigit)
      (nonzero : c ≠ '0') : Moves s c .whole
  | whole {c : Char} (isDigit : c.isDigit) : Moves .whole c .whole
  | point {s : State} {c : Char} (behind : BehindWhole s) (isPoint : c = '.') : Moves s c .point
  | fraction {s : State} {c : Char} (behind : s = .point ∨ s = .fraction) (isDigit : c.isDigit) :
      Moves s c .fraction
  | mark {s : State} {c : Char} (behind : BehindFraction s) (isMark : c = 'e' ∨ c = 'E') :
      Moves s c .mark
  | sign {c : Char} (isSign : c = '+' ∨ c = '-') : Moves .mark c .sign
  | exponent {s : State} {c : Char} (behind : s = .mark ∨ s = .sign ∨ s = .exponent)
      (isDigit : c.isDigit) : Moves s c .exponent

section Steps

variable {s t : State} {c : Char}

/-- A whole part begins with a zero, or with another digit. -/
theorem moves_of_lead (hs : BeforeWhole s) (h : lead? c = some t) : Moves s c t := by
  unfold lead? at h
  split at h
  · rename_i hzero
    cases h
    exact .zero hs hzero
  · rename_i hnonzero
    split at h
    · rename_i hdigit
      cases h
      exact .lead hs hdigit hnonzero
    · cases h

/-- Only a mark goes on behind a fraction. -/
theorem moves_of_mark (hs : BehindFraction s) (h : mark? c = some t) : Moves s c t := by
  unfold mark? at h
  split at h
  · rename_i hmark
    cases h
    exact .mark hs hmark
  · cases h

/-- Behind a whole part stands a point, or what may stand behind a fraction. -/
theorem moves_of_afterWhole (hs : BehindWhole s) (h : afterWhole? c = some t) : Moves s c t := by
  unfold afterWhole? at h
  split at h
  · rename_i hpoint
    cases h
    exact .point hs hpoint
  · exact moves_of_mark (Or.inl hs) h

/-- A digit is read if it is one, and all else in another way. -/
theorem moves_of_digitOr {u : State} {other : Option State} (hdigit : c.isDigit → Moves s c u)
    (hother : other = some t → Moves s c t)
    (h : (if c.isDigit then some u else other) = some t) : Moves s c t := by
  split at h
  · rename_i hc
    cases h
    exact hdigit hc
  · exact hother h

/-- Every step of the scanner is one of its moves. -/
theorem moves_of_step (h : s.step? c = some t) : Moves s c t := by
  have hnone : (none : Option State) = some t → Moves s c t := nofun
  cases s with
  | start =>
    change (if c = '-' then some State.minus else lead? c) = some t at h
    split at h
    · rename_i hminus
      cases h
      exact .minus hminus
    · exact moves_of_lead (Or.inl rfl) h
  | minus => exact moves_of_lead (Or.inr rfl) h
  | zero => exact moves_of_afterWhole (Or.inl rfl) h
  | whole => exact moves_of_digitOr .whole (moves_of_afterWhole (Or.inr rfl)) h
  | point => exact moves_of_digitOr (.fraction (Or.inl rfl)) hnone h
  | fraction =>
    exact moves_of_digitOr (.fraction (Or.inr rfl)) (moves_of_mark (Or.inr rfl)) h
  | mark =>
    change (if c = '+' ∨ c = '-' then some State.sign
      else if c.isDigit then some State.exponent else none) = some t at h
    split at h
    · rename_i hsign
      cases h
      exact .sign hsign
    · exact moves_of_digitOr (.exponent (Or.inl rfl)) hnone h
  | sign => exact moves_of_digitOr (.exponent (Or.inr (Or.inl rfl))) hnone h
  | exponent => exact moves_of_digitOr (.exponent (Or.inr (Or.inr rfl))) hnone h

end Steps

/-! ## Nothing but numerals -/

/-- What takes a state to the end of a numeral. -/
def Ending : State → List Char → Prop
  | .start, cs => IsNumeral cs
  | .minus, cs => ∃ ws fs es, Whole ws ∧ Fraction fs ∧ Exponent es ∧ cs = ws ++ fs ++ es
  | .zero, cs => ∃ fs es, Fraction fs ∧ Exponent es ∧ cs = fs ++ es
  | .whole, cs =>
    ∃ ds fs es, (∀ d ∈ ds, d.isDigit) ∧ Fraction fs ∧ Exponent es ∧ cs = ds ++ fs ++ es
  | .point, cs => ∃ ds es, Digits ds ∧ Exponent es ∧ cs = ds ++ es
  | .fraction, cs => ∃ ds es, (∀ d ∈ ds, d.isDigit) ∧ Exponent es ∧ cs = ds ++ es
  | .mark, cs => Exponent ('e' :: cs)
  | .sign, cs => Digits cs
  | .exponent, cs => ∀ d ∈ cs, d.isDigit

section Endings

variable {s next : State} {c : Char} {cs : List Char}

/-- The mark may be a letter of either case. -/
theorem exponent_of_ending_mark {mark : Char} (hmark : mark = 'e' ∨ mark = 'E')
    (h : Ending .mark cs) : Exponent (mark :: cs) := by
  cases h with
  | unsigned _ digits => exact .unsigned hmark digits
  | signed _ isSign digits => exact .signed hmark isSign digits

/-- What may stand behind a minus may also stand without one. -/
theorem ending_beforeWhole (hs : BeforeWhole s) (h : Ending .minus cs) : Ending s cs := by
  rcases hs with rfl | rfl
  · obtain ⟨ws, fs, es, hws, hfs, hes, rfl⟩ := h
    exact .unsigned hws hfs hes
  · exact h

/-- Where digits may follow, none have to. -/
theorem ending_behindWhole (hs : BehindWhole s) (h : Ending .zero cs) : Ending s cs := by
  rcases hs with rfl | rfl
  · exact h
  · obtain ⟨fs, es, hfs, hes, rfl⟩ := h
    exact ⟨[], fs, es, List.forall_mem_nil _, hfs, hes, rfl⟩

/-- Where a point may follow, an exponent may follow at once. -/
theorem ending_behindFraction (hs : BehindFraction s) (h : Exponent cs) : Ending s cs := by
  rcases hs with hs | rfl
  · exact ending_behindWhole hs ⟨[], cs, .absent, h, rfl⟩
  · exact ⟨[], cs, List.forall_mem_nil _, h, rfl⟩

theorem digits_cons (hc : c.isDigit) (h : ∀ d ∈ cs, d.isDigit) : Digits (c :: cs) :=
  ⟨List.cons_ne_nil c cs, List.forall_mem_cons.2 ⟨hc, h⟩⟩

/-- A move goes back from an ending to a longer one. -/
theorem ending_cons (h : Moves s c next) (hcs : Ending next cs) : Ending s (c :: cs) := by
  cases h with
  | minus isMinus =>
    obtain ⟨ws, fs, es, hws, hfs, hes, rfl⟩ := hcs
    rw [isMinus]
    exact .negative hws hfs hes
  | zero before isZero =>
    obtain ⟨fs, es, hfs, hes, rfl⟩ := hcs
    rw [isZero]
    exact ending_beforeWhole before ⟨['0'], fs, es, .zero, hfs, hes, rfl⟩
  | lead before isDigit nonzero =>
    obtain ⟨ds, fs, es, hds, hfs, hes, rfl⟩ := hcs
    exact ending_beforeWhole before
      ⟨c :: ds, fs, es, .positive isDigit nonzero hds, hfs, hes, rfl⟩
  | whole isDigit =>
    obtain ⟨ds, fs, es, hds, hfs, hes, rfl⟩ := hcs
    exact ⟨c :: ds, fs, es, List.forall_mem_cons.2 ⟨isDigit, hds⟩, hfs, hes, rfl⟩
  | point behind isPoint =>
    obtain ⟨ds, es, hds, hes, rfl⟩ := hcs
    rw [isPoint]
    exact ending_behindWhole behind ⟨'.' :: ds, es, .present hds, hes, rfl⟩
  | fraction behind isDigit =>
    obtain ⟨ds, es, hds, hes, rfl⟩ := hcs
    have hdigits := digits_cons isDigit hds
    rcases behind with rfl | rfl
    · exact ⟨c :: ds, es, hdigits, hes, rfl⟩
    · exact ⟨c :: ds, es, hdigits.2, hes, rfl⟩
  | mark behind isMark => exact ending_behindFraction behind (exponent_of_ending_mark isMark hcs)
  | sign isSign => exact .signed (Or.inl rfl) isSign hcs
  | exponent behind isDigit =>
    have hdigits := digits_cons isDigit hcs
    rcases behind with rfl | rfl | rfl
    · exact .unsigned (Or.inl rfl) hdigits
    · exact hdigits
    · exact hdigits.2

end Endings

/-- Where a numeral may end, nothing has to follow. -/
theorem ending_nil {s : State} (h : s.accepting) : Ending s [] := by
  cases s with
  | zero => exact ⟨[], [], .absent, .absent, rfl⟩
  | whole => exact ⟨[], [], [], List.forall_mem_nil _, .absent, .absent, rfl⟩
  | fraction => exact ⟨[], [], List.forall_mem_nil _, .absent, rfl⟩
  | exponent => exact List.forall_mem_nil _
  | _ => cases h

/-- What is read to its end in an accepting state is an ending of the state it started from. -/
theorem ending_of_run {s t : State} {cs : List Char} (h : run s cs = (t, []))
    (ht : t.accepting) : Ending s cs := by
  induction cs generalizing s with
  | nil =>
    obtain ⟨rfl, -⟩ := Prod.mk.inj h
    exact ending_nil ht
  | cons c cs ih =>
    obtain ⟨next, hstep, hrest⟩ := run_cons_iff.1 h
    exact ending_cons (moves_of_step hstep) (ih hrest)

/-- Only a JSON number is accepted. -/
theorem isNumeral_of_validate {text : String} (h : validate text = .ok ()) :
    IsNumeral text.toList := by
  unfold validate at h
  split at h
  · cases h
  · split at h
    · rename_i s hrun
      split at h
      · rename_i hs
        exact ending_of_run hrun hs
      · cases h
    · cases h

end Numeral

end JsonTree
