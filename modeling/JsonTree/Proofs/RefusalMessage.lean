import JsonTree.Proofs.EscapedText
import JsonTree.Proofs.RefusalPosition
import JsonTree.Numeral.Check

/-!
# A message identifies its cause

Every cause has wording of its own, and what the wording embeds can be cut off from the left: an
escaped character, a byte offset in decimal digits, an escaped text. So a message determines its
cause in all fields, and the cause names the text that was refused. All that a message shows can be
seen: it has no control character and no line break.

- `NumberError.initial`: the first character of a message tells most causes apart.
- `NumberError.messageChars_inj`: a message determines its cause.
- `NumberError.shown_messageChars`: no character of a message is hidden.
- `Numeral.literal?_of_check`: a refusal names the text.
- `Numeral.message_identifies`: what the message of a refused text tells.
-/

namespace JsonTree

namespace NumberError

open Text

/-! ## Wording -/

/-- The first character of a message. -/
def initial : NumberError → Char
  | .empty => 'e'
  | .unexpectedChar _ _ _ _ => 'u'
  | .unexpectedEnd _ _ => 'n'
  | .leadingZero _ => 'l'
  | .outOfRange _ => 'n'
  | .nonFinite (.infinity false) => 'i'
  | .nonFinite (.infinity true) => '-'
  | .nonFinite .nan => 'N'

/-- Every message starts with the character that is listed for it. -/
theorem head?_messageChars (e : NumberError) : e.messageChars.head? = some e.initial := by
  cases e with
  | nonFinite w =>
    cases w with
    | infinity neg =>
      cases neg with
      | false => rfl
      | true => rfl
    | nan => rfl
  | _ => rfl

/-- Equal messages start alike. -/
theorem initial_eq {e e' : NumberError} (h : e.messageChars = e'.messageChars) :
    e.initial = e'.initial := by
  have hhead := congrArg List.head? h
  rw [head?_messageChars, head?_messageChars] at hhead
  exact Option.some.inj hhead

/-- The words for values that are not finite start with characters that no other message starts with.
-/
theorem initial_nonFinite (w : NonFinite) : (nonFinite w).initial ∈ ['i', '-', 'N'] := by
  cases w with
  | infinity neg =>
    cases neg with
    | false => decide
    | true => decide
  | nan => decide

/-- No message of a text starts like the message of a value. -/
theorem literal?_of_initial {e : NumberError} {w : NonFinite}
    (h : e.initial = (nonFinite w).initial) : e.literal? = none := by
  have hmem := initial_nonFinite w
  rw [← h] at hmem
  cases e with
  | nonFinite v => rfl
  | _ => exact absurd hmem (by simp [initial])

/-- Among values that are not finite, the first character tells which one it is. -/
theorem nonFinite_inj_of_initial {v w : NonFinite}
    (h : (nonFinite v).initial = (nonFinite w).initial) : v = w := by
  cases v with
  | infinity neg =>
    cases w with
    | infinity neg' =>
      cases neg with
      | false =>
        cases neg' with
        | false => rfl
        | true => cases h
      | true =>
        cases neg' with
        | false => cases h
        | true => rfl
    | nan =>
      cases neg with
      | false => cases h
      | true => cases h
  | nan =>
    cases w with
    | infinity neg' =>
      cases neg' with
      | false => cases h
      | true => cases h
    | nan => rfl

/-- The two phrases for what was expected differ. -/
theorem phrase_inj {x y : Expectation} (h : x.phrase.toList = y.phrase.toList) : x = y := by
  cases x with
  | digit =>
    cases y with
    | digit => rfl
    | endOfNumber => cases h
  | endOfNumber =>
    cases y with
    | digit => cases h
    | endOfNumber => rfl

/-! ## Causes -/

/-- The space behind an offset is not one of its digits, so it ends them. -/
theorem space_not_mem_toDigits (n : Nat) : ' ' ∉ Nat.toDigits 10 n := by
  intro h
  obtain ⟨k, -, hk⟩ := exists_digitChar_of_mem_toDigits (by decide) h
  exact absurd hk.symm (Nat.digitChar_ne ' ' (by decide))

/-- The message of a stray character, taken apart from the left. -/
theorem unexpectedChar_messageChars_inj {literal literal' : String} {offset offset' : Nat}
    {found found' : Char} {expected expected' : Expectation}
    (h : (unexpectedChar literal offset found expected).messageChars
      = (unexpectedChar literal' offset' found' expected').messageChars) :
    literal = literal' ∧ offset = offset' ∧ found = found' ∧ expected = expected' := by
  unfold messageChars at h
  simp only [List.append_assoc] at h
  obtain ⟨hfound, h⟩ := quotedChar_append_inj (List.append_cancel_left h)
  -- the digits of the offset end at a space
  obtain ⟨hdigits, h⟩ := append_cons_inj (space_not_mem_toDigits _) (space_not_mem_toDigits _)
    (List.append_cancel_left h)
  obtain ⟨hliteral, h⟩ := quoted_append_inj (List.append_cancel_left h)
  exact ⟨hliteral, toDigits_inj (by decide) (by decide) hdigits, hfound,
    phrase_inj (List.append_cancel_left h)⟩

/-- A text that ends early and a text out of range are told apart behind the text. -/
theorem unexpectedEnd_messageChars_ne {literal literal' : String} {expected : Expectation} :
    (unexpectedEnd literal expected).messageChars ≠ (outOfRange literal').messageChars := by
  intro h
  unfold messageChars at h
  simp only [List.append_assoc] at h
  obtain ⟨-, h⟩ := quoted_append_inj (List.append_cancel_left h)
  cases h

/-- A message determines its cause. -/
theorem messageChars_inj {e e' : NumberError} (h : e.messageChars = e'.messageChars) : e = e' := by
  -- the first character leaves two causes at most, told apart by what follows
  have hinitial := initial_eq h
  cases e with
  | empty =>
    cases e' with
    | empty => rfl
    | nonFinite w => cases literal?_of_initial hinitial
    | _ => cases hinitial
  | unexpectedChar literal offset found expected =>
    cases e' with
    | unexpectedChar literal' offset' found' expected' =>
      obtain ⟨rfl, rfl, rfl, rfl⟩ := unexpectedChar_messageChars_inj h
      rfl
    | nonFinite w => cases literal?_of_initial hinitial
    | _ => cases hinitial
  | unexpectedEnd literal expected =>
    cases e' with
    | unexpectedEnd literal' expected' =>
      unfold messageChars at h
      simp only [List.append_assoc] at h
      obtain ⟨rfl, hrest⟩ := quoted_append_inj (List.append_cancel_left h)
      rw [phrase_inj (List.append_cancel_left hrest)]
    | outOfRange literal' => exact absurd h unexpectedEnd_messageChars_ne
    | nonFinite w => cases literal?_of_initial hinitial
    | _ => cases hinitial
  | leadingZero literal =>
    cases e' with
    | leadingZero literal' =>
      unfold messageChars at h
      rw [quoted_inj (List.append_cancel_left h)]
    | nonFinite w => cases literal?_of_initial hinitial
    | _ => cases hinitial
  | outOfRange literal =>
    cases e' with
    | unexpectedEnd literal' expected' => exact absurd h.symm unexpectedEnd_messageChars_ne
    | outOfRange literal' =>
      unfold messageChars at h
      simp only [List.append_assoc] at h
      rw [(quoted_append_inj (List.append_cancel_left h)).1]
    | nonFinite w => cases literal?_of_initial hinitial
    | _ => cases hinitial
  | nonFinite w =>
    cases e' with
    | nonFinite w' => rw [nonFinite_inj_of_initial hinitial]
    | _ => cases literal?_of_initial hinitial.symm

/-! ## What a message shows -/

theorem shown_phrase (x : Expectation) : Shown x.phrase.toList := by
  cases x with
  | digit => decide +kernel
  | endOfNumber => decide +kernel

theorem shown_display (w : NonFinite) : Shown w.display.toList := by
  cases w with
  | infinity neg =>
    cases neg with
    | false => decide +kernel
    | true => decide +kernel
  | nan => decide +kernel

/-- No character of a message is hidden. -/
theorem shown_messageChars (e : NumberError) : Shown e.messageChars := by
  cases e with
  | empty => decide +kernel
  | unexpectedChar literal offset found expected =>
    refine .append (.append (.append (.append (.append (.append (.append ?_
      (shown_quotedChar found)) ?_) (shown_toDigits (by decide) (by decide) offset)) ?_)
      (shown_quoted literal)) ?_) (shown_phrase expected)
    all_goals decide +kernel
  | unexpectedEnd literal expected =>
    refine .append (.append (.append ?_ (shown_quoted literal)) ?_) (shown_phrase expected)
    all_goals decide +kernel
  | leadingZero literal =>
    exact .append (by decide +kernel) (shown_quoted literal)
  | outOfRange literal =>
    refine .append (.append ?_ (shown_quoted literal)) ?_
    all_goals decide +kernel
  | nonFinite w => exact (shown_display w).append (by decide +kernel)

end NumberError

/-! ## Refused texts -/

namespace Numeral

open Text

variable {text text' : String} {e e' : NumberError}

/-- Whatever the cause, it names the text that was refused. -/
theorem Refused.literal?_eq (h : Refused text e) : e.literal? = some text := by
  cases h with
  | empty isEmpty => exact congrArg some (String.toList_eq_nil_iff.1 isEmpty).symm
  | _ => rfl

/-- A refusal names the text. -/
theorem literal?_of_check (h : check text = .error e) : e.literal? = some text := by
  unfold check at h
  cases hvalidate : validate text with
  | error cause =>
    rw [hvalidate] at h
    cases h
    exact (refused_of_validate hvalidate).literal?_eq
  | ok u =>
    rw [hvalidate] at h
    have hrange : checkRange text = .error e := h
    unfold checkRange at hrange
    split at hrange
    · cases hrange
    · cases hrange
      rfl

/-- What the message of a refused text tells. Two messages are the same only if the same text was
refused for the same cause, equal in all fields; and no message has a control character or a line
break in it, whatever the text holds. -/
theorem message_identifies (h : check text = .error e) (h' : check text' = .error e') :
    (e.message = e'.message ↔ text = text' ∧ e = e') ∧
      ∀ c ∈ e.message.toList, ¬ IsControl c ∧ ¬ IsLineBreak c := by
  refine ⟨⟨fun hmessage => ?_, fun heq => congrArg NumberError.message heq.2⟩, fun c hc => ?_⟩
  · obtain rfl : e = e' := NumberError.messageChars_inj (String.ofList_injective hmessage)
    have hliteral : some text = some text' :=
      (literal?_of_check h).symm.trans (literal?_of_check h')
    exact ⟨Option.some.inj hliteral, rfl⟩
  · have hshown : isHidden c = false := by
      refine e.shown_messageChars c ?_
      rwa [NumberError.message, String.toList_ofList] at hc
    rw [← not_or]
    intro hraw
    rw [isHidden_of_isControl_or_isLineBreak hraw] at hshown
    cases hshown

/-- A text that imitates the wording behind a text, and one of characters that end a line. -/
theorem message_identifies_imitation :
    check "0\" ends early, expected a digit"
        = .error (.unexpectedChar "0\" ends early, expected a digit" 1 '"' .endOfNumber) ∧
      check "\u2028\r" = .error (.unexpectedChar "\u2028\r" 0 '\u2028' .digit) ∧
      (NumberError.unexpectedChar "0\" ends early, expected a digit" 1 '"' .endOfNumber).message
        ≠ (NumberError.unexpectedChar "\u2028\r" 0 '\u2028' .digit).message ∧
      (NumberError.unexpectedChar "\u2028\r" 0 '\u2028' .digit).message
        = "unexpected '\\u\x7b2028\x7d' at offset 0 in number literal " ++
          "\"\\u\x7b2028\x7d\\r\", expected a digit" ∧
      ∀ c ∈ (NumberError.unexpectedChar "\u2028\r" 0 '\u2028' .digit).message.toList,
        ¬ IsControl c ∧ ¬ IsLineBreak c := by
  have himitation : check "0\" ends early, expected a digit"
      = .error (.unexpectedChar "0\" ends early, expected a digit" 1 '"' .endOfNumber) := by
    decide +kernel
  have hbreak : check "\u2028\r" = .error (.unexpectedChar "\u2028\r" 0 '\u2028' .digit) := by
    decide +kernel
  refine ⟨himitation, hbreak, fun heq => ?_, by decide +kernel,
    (message_identifies hbreak hbreak).2⟩
  obtain ⟨htext, -⟩ := (message_identifies himitation hbreak).1.1 heq
  exact absurd htext (by decide)

end Numeral

end JsonTree
