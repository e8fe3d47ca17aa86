import JsonTree.Text.DefaultIgnorable
import JsonTree.Text.ExtendingMark
import JsonTree.Text.Unprintable

/-!
# Quoted text

How a text or a character is shown inside a message: between delimiters, with every character
that would not show as itself escaped.

- `Text.isHidden`: whether a character does not show by itself; `Text.isHidden_iff`: it lies in a range
  of one of the tables.
- `Text.escape`: one character inside a given delimiter.
- `Text.quoted`, `Text.quotedChar`: a text between double quotes, a character between single ones.
-/

namespace JsonTree.Text

/-- Whether a character does not show by itself: it cannot be printed, it leaves nothing to see, or
it is drawn together with the character before it. -/
def isHidden (c : Char) : Bool := isUnprintable c || isDefaultIgnorable c || isExtendingMark c

/-- A character is hidden exactly if a range of one of the three tables holds it: the tables ascend,
so no search stops before that range. -/
theorem isHidden_iff {c : Char} : isHidden c = true ↔
    ∃ rs ∈ [unprintable, defaultIgnorable, extendingMark], ∃ r ∈ rs,
      r.1 ≤ c.toNat ∧ c.toNat ≤ r.2 := by
  unfold isHidden isUnprintable isDefaultIgnorable isExtendingMark
  rw [Bool.or_eq_true, Bool.or_eq_true, Ranges.contains_iff unprintable_ascending,
    Ranges.contains_iff defaultIgnorable_ascending, Ranges.contains_iff extendingMark_ascending,
    or_assoc]
  simp only [List.mem_cons, List.not_mem_nil, or_false, exists_eq_or_imp, exists_eq_left]

/-- A character by its code point in lower-case hexadecimal digits. -/
def escapeCodePoint (c : Char) : List Char :=
  ['\\', 'u', '\x7b'] ++ Nat.toDigits 16 c.toNat ++ ['\x7d']

/-- One character inside `delimiter`. The delimiter and the backslash get a backslash, four
controls have a letter or digit, and the other hidden characters are given by their code point. -/
def escape (delimiter c : Char) : List Char :=
  if c = '\x00' then ['\\', '0']
  else if c = '\t' then ['\\', 't']
  else if c = '\r' then ['\\', 'r']
  else if c = '\n' then ['\\', 'n']
  else if c = delimiter ∨ c = '\\' then ['\\', c]
  else if isHidden c then escapeCodePoint c
  else [c]

/-- Characters escaped one by one. -/
def escapeAll (delimiter : Char) (cs : List Char) : List Char := cs.flatMap (escape delimiter)

/-- A text between double quotes. -/
def quoted (s : String) : List Char := '"' :: escapeAll '"' s.toList ++ ['"']

/-- A character between single quotes. -/
def quotedChar (c : Char) : List Char := '\'' :: escape '\'' c ++ ['\'']

end JsonTree.Text
