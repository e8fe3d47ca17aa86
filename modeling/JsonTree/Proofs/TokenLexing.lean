import JsonTree.JsonText.Lexer
import JsonTree.JsonText.Writer
import JsonTree.Proofs.MachineText

/-!
# Text splits into the tokens that it was written from

A number has no end of its own: it is complete when a character follows that cannot belong to it.
Between two numbers there must be another token, and then the text of tokens splits into just these
tokens.

- `MachineNumber.ofNumeral_spell`: the text of a machine number is a numeral of that number.
- `Lexer.foldl_escapeJson`: what is written for a character reads as the character.
- `Token.Separated`: no number stands right behind another.
- `Lexer.Settled`: what the reader has read ends at the end of a token.
- `Lexer.settled_numeral`: a numeral is read as one number.
- `Token.lex_text`: separated tokens come back from their text.
-/

namespace JsonTree

/-! ## The text of a number -/

namespace MachineNumber

theorem spellInt_ne_minusZero (n : Int) : spellInt n ≠ ['-', '0'] := by
  intro h
  have hread : some n = some 0 := by
    rw [← readInteger_spellInt n, h]
    rfl
  obtain rfl := Option.some.inj hread
  exact absurd h (by decide)

/-- The text of a machine number is a numeral of that number. -/
theorem ofNumeral_spell (m : MachineNumber) : ofNumeral? m.spell = some m := by
  cases m with
  | int n =>
    have hinteger : (readInteger? (spellInt n.val)).bind MachineInt.ofInt? = some n := by
      rw [readInteger_spellInt, Option.bind_some, n.ofInt_val]
    unfold ofNumeral? spell
    simp only [if_neg (spellInt_ne_minusZero n.val), hinteger]
  | float x =>
    have hvalue : Binary64.ofText (String.ofList (x.spell .serialized)) = .finite x :=
      x.ofText_serializedText
    unfold ofNumeral? spell
    simp only [x.not_readInteger_serialized, Option.bind_none, ite_self, hvalue]
    rfl

theorem isNumeral_spell (m : MachineNumber) : IsNumeral m.spell := by
  cases m with
  | int n => exact isNumeral_spellInt n.val
  | float x => exact x.isNumeral_spell .serialized

end MachineNumber

namespace Lexer

/-- Where a numeral may start, nothing else may. -/
theorem between_of_step {c : Char} {next : Numeral.State}
    (h : Numeral.State.start.step? c = some next) (s : State) :
    s.between c = s.goto (.number next [c]) := by
  -- the character is none of those that begin another token
  have hne : ∀ d : Char, Numeral.State.start.step? d = none → c ≠ d := by
    rintro d hd rfl
    rw [hd] at h
    cases h
  have hspace : isJsonSpace c = false := by
    simp [isJsonSpace, hne ' ' rfl, hne '\t' rfl, hne '\n' rfl, hne '\r' rfl]
  unfold State.between
  rw [hspace, if_neg Bool.false_ne_true, if_neg (hne '[' rfl), if_neg (hne ']' rfl),
    if_neg (hne '\x7b' rfl), if_neg (hne '\x7d' rfl), if_neg (hne ',' rfl), if_neg (hne ':' rfl),
    if_neg (hne 'n' rfl), if_neg (hne 't' rfl), if_neg (hne 'f' rfl), if_neg (hne '"' rfl), h]

/-- Inside a number the reader runs as the scanner does. -/
theorem foldl_number {state next : Numeral.State} {cs : List Char}
    (h : Numeral.run state cs = (next, [])) (done : List Char) (tokens : List Token) :
    cs.foldl step ⟨.number state done, tokens⟩ = ⟨.number next (cs.reverse ++ done), tokens⟩ := by
  induction cs generalizing state done with
  | nil =>
    obtain ⟨rfl, -⟩ := Prod.mk.inj h
    rfl
  | cons c cs ih =>
    obtain ⟨after, hstep, hrest⟩ := Numeral.run_cons_iff.1 h
    have hnumber : step ⟨.number state done, tokens⟩ c = ⟨.number after (c :: done), tokens⟩ := by
      unfold step
      simp only [hstep, State.goto]
    rw [List.foldl_cons, hnumber, ih hrest, List.reverse_cons, List.append_assoc]
    rfl

/-! ## The text of a string -/

theorem hexDigit_digitChar : ∀ n < 16, hexDigit? n.digitChar = some n := by decide

/-- A control character is written as its code unit. -/
theorem foldl_codeUnit {c : Char} (h : c < ' ') (done : List Char) (tokens : List Token) :
    ['\\', 'u', '0', '0', (c.toNat / 16).digitChar, (c.toNat % 16).digitChar].foldl step
      ⟨.string done, tokens⟩ = ⟨.string (c :: done), tokens⟩ := by
  have hlt : c.toNat < 32 := h
  have hhigh : hexDigit? (c.toNat / 16).digitChar = some (c.toNat / 16) :=
    hexDigit_digitChar _ (by omega)
  have hlow : hexDigit? (c.toNat % 16).digitChar = some (c.toNat % 16) :=
    hexDigit_digitChar _ (by omega)
  -- two zeros leave two digits to come, and the digits are those of the character
  have hzeros : ['\\', 'u', '0', '0'].foldl step ⟨.string done, tokens⟩
      = ⟨.unit done none 2 0, tokens⟩ := rfl
  have hvalue : 16 * (16 * 0 + c.toNat / 16) + c.toNat % 16 = c.toNat := by omega
  show [(c.toNat / 16).digitChar, (c.toNat % 16).digitChar].foldl step
    (['\\', 'u', '0', '0'].foldl step ⟨.string done, tokens⟩) = _
  rw [hzeros, List.foldl_cons, List.foldl_cons, List.foldl_nil]
  have hfirst : step ⟨.unit done none 2 0, tokens⟩ (c.toNat / 16).digitChar
      = ⟨.unit done none 1 (16 * 0 + c.toNat / 16), tokens⟩ := by
    unfold step
    simp only [hhigh]
    rfl
  have hsecond : step ⟨.unit done none 1 (16 * 0 + c.toNat / 16), tokens⟩
      (c.toNat % 16).digitChar = ⟨.string (c :: done), tokens⟩ := by
    unfold step
    simp only [hlow, hvalue]
    unfold State.endUnit
    simp only [State.goto, Char.ofNat_toNat]
    rw [if_pos (by decide), if_neg (by omega), if_neg (by omega)]
  rw [hfirst, hsecond]

/-- What is written for a character reads as the character. -/
theorem foldl_escapeJson (c : Char) (done : List Char) (tokens : List Token) :
    (escapeJson c).foldl step ⟨.string done, tokens⟩ = ⟨.string (c :: done), tokens⟩ := by
  by_cases hletter : c ∈ ['"', '\\', '\x08', '\x0c', '\n', '\r', '\t']
  · simp only [List.mem_cons, List.not_mem_nil, or_false] at hletter
    rcases hletter with rfl | rfl | rfl | rfl | rfl | rfl | rfl
    all_goals rfl
  · simp only [List.mem_cons, List.not_mem_nil, or_false, not_or] at hletter
    obtain ⟨hquote, hbackslash, hb, hf, hn, hr, ht⟩ := hletter
    unfold escapeJson
    rw [if_neg hquote, if_neg hbackslash, if_neg hb, if_neg hf, if_neg hn, if_neg hr, if_neg ht]
    by_cases hcontrol : c < ' '
    · rw [if_pos hcontrol]
      exact foldl_codeUnit hcontrol done tokens
    · rw [if_neg hcontrol, List.foldl_cons, List.foldl_nil]
      unfold step
      simp only [if_neg hquote, if_neg hbackslash, if_neg hcontrol, State.goto]

/-- The characters between the quotes read as the string. -/
theorem foldl_escaped (cs done : List Char) (tokens : List Token) :
    (cs.flatMap escapeJson).foldl step ⟨.string done, tokens⟩
      = ⟨.string (cs.reverse ++ done), tokens⟩ := by
  induction cs generalizing done with
  | nil => rfl
  | cons c cs ih =>
    rw [List.flatMap_cons, List.foldl_append, foldl_escapeJson, ih, List.reverse_cons,
      List.append_assoc]
    rfl

/-! ## The ends of tokens -/

/-- All that has been read are these tokens, last first; the last one may be a number whose end has
not been seen. -/
inductive Settled : State → List Token → Prop where
  | between (tokens : List Token) : Settled ⟨.between, tokens⟩ tokens
  | number {state : Numeral.State} {done : List Char} {m : MachineNumber} (tokens : List Token)
      (accepting : state.accepting) (isNumeral : MachineNumber.ofNumeral? done.reverse = some m) :
      Settled ⟨.number state done, tokens⟩ (.num m :: tokens)

theorem endNumber_eq {state : Numeral.State} {done : List Char} {m : MachineNumber}
    (hstate : state.accepting) (hnumeral : MachineNumber.ofNumeral? done.reverse = some m)
    (s : State) : s.endNumber state done = s.emit (.num m) := by
  unfold State.endNumber
  rw [if_pos hstate, hnumeral]

/-- The end of the text ends the last token. -/
theorem Settled.finish {s : State} {tokens : List Token} (h : Settled s tokens) :
    finish s = ⟨.between, tokens⟩ := by
  cases h with
  | between => rfl
  | number tokens hstate hnumeral => exact endNumber_eq hstate hnumeral _

/-- A character that no numeral goes on with ends the last token. -/
theorem Settled.step {s : State} {tokens : List Token} (h : Settled s tokens) {c : Char}
    (hc : ∀ state : Numeral.State, state.step? c = none) :
    step s c = State.between ⟨.between, tokens⟩ c := by
  cases h with
  | between => rfl
  | @number state done m tokens hstate hnumeral =>
    unfold Lexer.step
    simp only [hc state, endNumber_eq hstate hnumeral]
    rfl

/-- A token other than a number is read to its end. -/
theorem Settled.foldl_spell {s : State} {tokens : List Token} (h : Settled s tokens)
    {token : Token} (htoken : ∀ m, token ≠ .num m) :
    token.spell.foldl Lexer.step s = ⟨.between, token :: tokens⟩ := by
  cases token with
  | num m => exact absurd rfl (htoken m)
  | openArray => exact h.step fun state => by cases state <;> rfl
  | closeArray => exact h.step fun state => by cases state <;> rfl
  | openObject => exact h.step fun state => by cases state <;> rfl
  | closeObject => exact h.step fun state => by cases state <;> rfl
  | comma => exact h.step fun state => by cases state <;> rfl
  | colon => exact h.step fun state => by cases state <;> rfl
  | null =>
    show ['u', 'l', 'l'].foldl Lexer.step (Lexer.step s 'n') = _
    rw [h.step fun state => by cases state <;> rfl]
    rfl
  | bool b =>
    cases b with
    | true =>
      show ['r', 'u', 'e'].foldl Lexer.step (Lexer.step s 't') = _
      rw [h.step fun state => by cases state <;> rfl]
      rfl
    | false =>
      show ['a', 'l', 's', 'e'].foldl Lexer.step (Lexer.step s 'f') = _
      rw [h.step fun state => by cases state <;> rfl]
      rfl
  | str t =>
    show (t.toList.flatMap escapeJson ++ ['"']).foldl Lexer.step (Lexer.step s '"') = _
    rw [h.step fun state => by cases state <;> rfl]
    -- the opening quote starts an empty string, and the closing one turns it round
    have hopen : State.between ⟨.between, tokens⟩ '"' = ⟨.string [], tokens⟩ := rfl
    rw [hopen, List.foldl_append, foldl_escaped, List.append_nil]
    show State.emit _ (.str (String.ofList t.toList.reverse.reverse)) = _
    rw [List.reverse_reverse, String.ofList_toList]
    rfl

/-- A numeral between tokens is read, and settled. -/
theorem settled_numeral {cs : List Char} (hcs : IsNumeral cs) {m : MachineNumber}
    (hm : MachineNumber.ofNumeral? cs = some m) (tokens : List Token) :
    Settled (cs.foldl step ⟨.between, tokens⟩) (.num m :: tokens) := by
  obtain ⟨next, hnext, hrun⟩ := Numeral.run_of_isNumeral hcs
  -- the first character starts the number, and the others run through the scanner
  have hread : cs.foldl step ⟨.between, tokens⟩ = ⟨.number next cs.reverse, tokens⟩ := by
    cases cs with
    | nil =>
      cases hrun
      exact absurd hnext (by decide)
    | cons c cs =>
      obtain ⟨first, hstep, hrest⟩ := Numeral.run_cons_iff.1 hrun
      rw [List.foldl_cons, List.reverse_cons]
      show cs.foldl step (State.between ⟨.between, tokens⟩ c) = _
      rw [between_of_step hstep]
      exact foldl_number hrest [c] tokens
  rw [hread]
  refine .number tokens hnext ?_
  rw [List.reverse_reverse, hm]

/-- A number between tokens is read from its text, and settled. -/
theorem settled_number (m : MachineNumber) (tokens : List Token) :
    Settled (m.spell.foldl step ⟨.between, tokens⟩) (.num m :: tokens) :=
  settled_numeral m.isNumeral_spell m.ofNumeral_spell tokens

end Lexer

/-! ## The text of tokens -/

namespace Token

/-- The tokens do not start with a number. -/
def NoNumberAhead (tokens : List Token) : Prop := ∀ m, tokens.head? ≠ some (.num m)

/-- No number stands right behind another. -/
def Separated : List Token → Prop
  | [] => True
  | .num _ :: tokens => NoNumberAhead tokens ∧ Separated tokens
  | _ :: tokens => Separated tokens

theorem separated_cons {tokens : List Token} (token : Token) (hahead : NoNumberAhead tokens)
    (h : Separated tokens) : Separated (token :: tokens) := by
  cases token with
  | num m => exact ⟨hahead, h⟩
  | _ => exact h

/-- The reader goes through the text of separated tokens and settles behind it. -/
theorem settled_foldl {tokens : List Token} (h : Separated tokens) {s : Lexer.State}
    {done : List Token} (hs : Lexer.Settled s done)
    (hahead : s.mode = .between ∨ NoNumberAhead tokens) :
    Lexer.Settled ((tokens.flatMap spell).foldl Lexer.step s) (tokens.reverse ++ done) := by
  induction tokens generalizing s done with
  | nil => exact hs
  | cons token tokens ih =>
    rw [List.flatMap_cons, List.foldl_append, List.reverse_cons, List.append_assoc]
    by_cases htoken : ∃ m, token = .num m
    · obtain ⟨m, rfl⟩ := htoken
      obtain ⟨hnext, htokens⟩ := h
      -- a number is only read from between tokens
      have hbetween : s = ⟨.between, done⟩ := by
        rcases hahead with hmode | hahead
        · cases hs with
          | between => rfl
          | number => cases hmode
        · exact absurd rfl (hahead m)
      rw [hbetween]
      exact ih htokens (Lexer.settled_number m done) (Or.inr hnext)
    · have hother : ∀ m, token ≠ .num m := fun m hm => htoken ⟨m, hm⟩
      have htokens : Separated tokens := by
        cases token with
        | num m => exact absurd rfl (hother m)
        | _ => exact h
      rw [hs.foldl_spell hother]
      exact ih htokens (.between _) (Or.inl rfl)

/-- Separated tokens come back from their text. -/
theorem lex_text {tokens : List Token} (h : Separated tokens) :
    lex (text tokens) = ⟨tokens, true⟩ := by
  have hsettled := settled_foldl h (.between []) (Or.inl rfl)
  unfold lex text
  rw [String.toList_ofList, hsettled.finish, List.append_nil]
  show Lexed.mk tokens.reverse.reverse true = ⟨tokens, true⟩
  rw [List.reverse_reverse]

end Token

end JsonTree
