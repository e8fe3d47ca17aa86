import JsonTree.Text.Quoted
import Mathlib.Data.Bool.AllAny

/-!
# Escaped text can be read back

A character that is shown escaped is either itself, or a backslash with a letter, or a backslash with
a code point in braces. Which of them it is can be told from the left, so that the character and what
follows it are both determined; with the delimiter behind it, the same holds of a whole text. Nothing
that is hidden is shown raw, hence no control character and no line break.

- `Text.Escaped`: the three forms; `Text.escaped_escape`: every character takes one of them.
- `Text.escape_append_inj`, `Text.quoted_append_inj`, `Text.quotedChar_append_inj`: what was shown is
  determined by a text that starts with it.
- `Text.Enclosed`: texts in which every delimiter stands behind a backslash;
  `Text.enclosed_escapeAll`: an escaped text is one.
- `Text.IsControl`, `Text.IsLineBreak`: both are hidden.
- `Text.Shown`, `Text.shown_escapeAll`: a character that is hidden is never shown raw.
-/

namespace JsonTree.Text

/-! ## Digits -/

/-- What stands before the first occurrence of a character, and what stands behind it, are
determined. -/
theorem append_cons_inj {d : Char} {xs ys rest rest' : List Char} (hx : d ∉ xs) (hy : d ∉ ys)
    (h : xs ++ d :: rest = ys ++ d :: rest') : xs = ys ∧ rest = rest' := by
  induction xs generalizing ys with
  | nil =>
    cases ys with
    | nil => exact ⟨rfl, (List.cons.inj h).2⟩
    | cons y ys => exact absurd ((List.cons.inj h).1 ▸ List.mem_cons_self) hy
  | cons x xs ih =>
    cases ys with
    | nil => exact absurd ((List.cons.inj h).1 ▸ List.mem_cons_self) hx
    | cons y ys =>
      obtain ⟨rfl, hrest⟩ := List.cons.inj h
      obtain ⟨rfl, rfl⟩ :=
        ih (List.not_mem_of_not_mem_cons hx) (List.not_mem_of_not_mem_cons hy) hrest
      exact ⟨rfl, rfl⟩

/-- The last digit comes off the end. -/
theorem toDigits_eq {b : Nat} (hb : 1 < b) (n : Nat) :
    Nat.toDigits b n
      = (if n < b then [] else Nat.toDigits b (n / b)) ++ [(n % b).digitChar] := by
  rw [Nat.toDigits_eq_if hb]
  split
  · next hlt => rw [Nat.mod_eq_of_lt hlt, List.nil_append]
  · rfl

/-- The digits of a number are characters of digits below the base. -/
theorem exists_digitChar_of_mem_toDigits {b : Nat} (hb : 1 < b) {n : Nat} {c : Char}
    (h : c ∈ Nat.toDigits b n) : ∃ k < b, c = k.digitChar := by
  induction n using Nat.strongRecOn with
  | ind n ih =>
    rw [toDigits_eq hb, List.mem_append, List.mem_singleton] at h
    rcases h with h | h
    · split at h
      · exact absurd h List.not_mem_nil
      · exact ih (n / b) (Nat.div_lt_self (by omega) hb) h
    · exact ⟨n % b, Nat.mod_lt n (by omega), h⟩

/-- Sixteen digits, sixteen characters, by evaluation. -/
theorem digitChar_inj : ∀ m < 16, ∀ n < 16, m.digitChar = n.digitChar → m = n := by decide

/-- A number is determined by its digits, in any base up to sixteen. -/
theorem toDigits_inj {b : Nat} (hb : 1 < b) (hle : b ≤ 16) {m n : Nat}
    (h : Nat.toDigits b m = Nat.toDigits b n) : m = n := by
  induction m using Nat.strongRecOn generalizing n with
  | ind m ih =>
    have hmod (k : Nat) : k % b < 16 := Nat.lt_of_lt_of_le (Nat.mod_lt k (by omega)) hle
    rw [toDigits_eq hb m, toDigits_eq hb n] at h
    obtain ⟨hinit, hlast⟩ := List.append_inj' h rfl
    have hdigit : m % b = n % b := digitChar_inj _ (hmod m) _ (hmod n) (List.head_eq_of_cons_eq hlast)
    split at hinit
    · next hm =>
      split at hinit
      · next hn => rwa [Nat.mod_eq_of_lt hm, Nat.mod_eq_of_lt hn] at hdigit
      · exact absurd hinit.symm Nat.toDigits_ne_nil
    · next hm =>
      split at hinit
      · exact absurd hinit Nat.toDigits_ne_nil
      · have hdiv : m / b = n / b := ih (m / b) (Nat.div_lt_self (by omega) hb) hinit
        rw [← Nat.div_add_mod m b, ← Nat.div_add_mod n b, hdiv, hdigit]

/-! ## One character -/

/-- The two delimiters. -/
def IsQuote (d : Char) : Prop := d = '"' ∨ d = '\''

/-- What a letter behind a backslash stands for. -/
def unescapeLetter (l : Char) : Char :=
  if l = '0' then '\x00' else if l = 't' then '\t' else if l = 'r' then '\r'
  else if l = 'n' then '\n' else l

/-- The three forms in which a character is shown inside a delimiter. -/
inductive Escaped (d : Char) : Char → List Char → Prop where
  | plain {c : Char} (other : c ≠ d) (unmarked : c ≠ '\\') (shown : isHidden c = false) :
    Escaped d c [c]
  | letter (l : Char) (short : l ≠ 'u') (shown : isHidden l = false) :
    Escaped d (unescapeLetter l) ['\\', l]
  | codePoint (c : Char) : Escaped d c (escapeCodePoint c)

/-- Every character takes one of the forms. -/
theorem escaped_escape {d : Char} (hd : IsQuote d) (c : Char) : Escaped d c (escape d c) := by
  unfold escape
  split
  · next h => exact h ▸ .letter '0' (by decide) (by decide)
  split
  · next h => exact h ▸ .letter 't' (by decide) (by decide)
  split
  · next h => exact h ▸ .letter 'r' (by decide) (by decide)
  split
  · next h => exact h ▸ .letter 'n' (by decide) (by decide)
  split
  · next h =>
    -- quotes and the backslash stand for themselves
    rcases h with rfl | rfl
    · rcases hd with rfl | rfl
      · exact .letter '"' (by decide) (by decide)
      · exact .letter '\'' (by decide) (by decide)
    · exact .letter '\\' (by decide) (by decide)
  split
  · exact .codePoint c
  · next h hhidden =>
    rw [not_or] at h
    exact .plain h.1 h.2 (Bool.eq_false_iff.2 hhidden)

/-- The brace behind a code point is not one of its digits, so it ends them. -/
theorem brace_not_mem_toDigits {b : Nat} (hb : 1 < b) (n : Nat) : '\x7d' ∉ Nat.toDigits b n := by
  intro h
  obtain ⟨k, -, hk⟩ := exists_digitChar_of_mem_toDigits hb h
  exact absurd hk.symm (Nat.digitChar_ne '\x7d' (by decide))

/-- A character and what follows it are determined by what is shown of them. -/
theorem Escaped.append_inj {d c c' : Char} {cs cs' rest rest' : List Char} (h : Escaped d c cs)
    (h' : Escaped d c' cs') (heq : cs ++ rest = cs' ++ rest') : c = c' ∧ rest = rest' := by
  cases h with
  | plain other unmarked =>
    cases h' with
    | plain => exact List.cons.inj heq
    | letter => exact absurd (List.cons.inj heq).1 unmarked
    | codePoint => exact absurd (List.cons.inj heq).1 unmarked
  | letter l short =>
    cases h' with
    | plain _ unmarked => exact absurd (List.cons.inj heq).1.symm unmarked
    | letter l' =>
      obtain ⟨rfl, hrest⟩ := List.cons.inj (List.cons.inj heq).2
      exact ⟨rfl, hrest⟩
    | codePoint => exact absurd (List.cons.inj (List.cons.inj heq).2).1 short
  | codePoint =>
    cases h' with
    | plain _ unmarked => exact absurd (List.cons.inj heq).1.symm unmarked
    | letter _ short => exact absurd (List.cons.inj (List.cons.inj heq).2).1.symm short
    | codePoint =>
      -- the digits end at the first closing brace
      have hdigits : Nat.toDigits 16 c.toNat ++ '\x7d' :: rest
          = Nat.toDigits 16 c'.toNat ++ '\x7d' :: rest' := by
        simpa [escapeCodePoint] using heq
      obtain ⟨hcode, hrest⟩ := append_cons_inj (brace_not_mem_toDigits (by decide) _)
        (brace_not_mem_toDigits (by decide) _) hdigits
      exact ⟨Char.toNat_inj.1 (toDigits_inj (by decide) (by decide) hcode), hrest⟩

/-- A character shown inside a delimiter is determined by a text that starts with it. -/
theorem escape_append_inj {d : Char} (hd : IsQuote d) {c c' : Char} {rest rest' : List Char}
    (h : escape d c ++ rest = escape d c' ++ rest') : c = c' ∧ rest = rest' :=
  (escaped_escape hd c).append_inj (escaped_escape hd c') h

/-! ## Whole texts -/

/-- Texts in which every delimiter stands behind a backslash, and every backslash has something
behind it. -/
inductive Enclosed (d : Char) : List Char → Prop where
  | nil : Enclosed d []
  | plain {c : Char} {cs : List Char} (other : c ≠ d) (unmarked : c ≠ '\\') (rest : Enclosed d cs) :
    Enclosed d (c :: cs)
  | marked (c : Char) {cs : List Char} (rest : Enclosed d cs) : Enclosed d ('\\' :: c :: cs)

theorem Enclosed.append {d : Char} {cs ds : List Char} (h : Enclosed d cs) (hds : Enclosed d ds) :
    Enclosed d (cs ++ ds) := by
  induction h with
  | nil => exact hds
  | plain other unmarked _ ih => exact .plain other unmarked ih
  | marked c _ ih => exact .marked c ih

/-- Without delimiter and backslash there is nothing to stand behind a backslash. -/
theorem enclosed_of_plain {d : Char} {cs : List Char} (h : ∀ c ∈ cs, c ≠ d ∧ c ≠ '\\') :
    Enclosed d cs := by
  induction cs with
  | nil => exact .nil
  | cons c cs ih =>
    obtain ⟨⟨hother, hunmarked⟩, hrest⟩ := List.forall_mem_cons.1 h
    exact .plain hother hunmarked (ih hrest)

/-- In each of the three forms, a delimiter is the letter behind the backslash or is not there. -/
theorem Escaped.enclosed {d c : Char} {cs : List Char} (hd : IsQuote d) (h : Escaped d c cs) :
    Enclosed d cs := by
  cases h with
  | plain other unmarked => exact .plain other unmarked .nil
  | letter l => exact .marked l .nil
  | codePoint =>
    refine .marked 'u' (enclosed_of_plain fun x hx => ?_)
    have hcases : x = '\x7b' ∨ x ∈ Nat.toDigits 16 c.toNat ∨ x = '\x7d' := by
      simpa [or_assoc] using hx
    rcases hcases with rfl | hdigit | rfl
    · rcases hd with rfl | rfl <;> decide
    · obtain ⟨k, -, rfl⟩ := exists_digitChar_of_mem_toDigits (by decide) hdigit
      rcases hd with rfl | rfl
      · exact ⟨Nat.digitChar_ne '"' (by decide), Nat.digitChar_ne '\\' (by decide)⟩
      · exact ⟨Nat.digitChar_ne '\'' (by decide), Nat.digitChar_ne '\\' (by decide)⟩
    · rcases hd with rfl | rfl <;> decide

/-- In an escaped text every delimiter stands behind a backslash. -/
theorem enclosed_escapeAll {d : Char} (hd : IsQuote d) (cs : List Char) :
    Enclosed d (escapeAll d cs) := by
  induction cs with
  | nil => exact .nil
  | cons c cs ih =>
    unfold escapeAll
    rw [List.flatMap_cons]
    exact ((escaped_escape hd c).enclosed hd).append ih

/-- No escape starts with the delimiter. -/
theorem Escaped.append_ne {d c : Char} {cs rest rest' : List Char} (hd : IsQuote d)
    (h : Escaped d c cs) : cs ++ rest ≠ d :: rest' := by
  have hmark : '\\' ≠ d := by rcases hd with rfl | rfl <;> decide
  intro heq
  cases h with
  | plain other => exact other (List.cons.inj heq).1
  | letter => exact hmark (List.cons.inj heq).1
  | codePoint => exact hmark (List.cons.inj heq).1

/-- A text is determined by its escaped form up to the delimiter, and so is what follows it. -/
theorem escapeAll_append_inj {d : Char} (hd : IsQuote d) {cs cs' rest rest' : List Char}
    (h : escapeAll d cs ++ d :: rest = escapeAll d cs' ++ d :: rest') : cs = cs' ∧ rest = rest' := by
  unfold escapeAll at h
  induction cs generalizing cs' with
  | nil =>
    cases cs' with
    | nil => exact ⟨rfl, (List.cons.inj h).2⟩
    | cons c' cs' =>
      rw [List.flatMap_cons, List.append_assoc] at h
      exact absurd h.symm ((escaped_escape hd c').append_ne hd)
  | cons c cs ih =>
    rw [List.flatMap_cons, List.append_assoc] at h
    cases cs' with
    | nil => exact absurd h ((escaped_escape hd c).append_ne hd)
    | cons c' cs' =>
      rw [List.flatMap_cons, List.append_assoc] at h
      obtain ⟨rfl, hrest⟩ := escape_append_inj hd h
      obtain ⟨rfl, rfl⟩ := ih hrest
      exact ⟨rfl, rfl⟩

/-- A text is determined by its escaped form. -/
theorem escapeAll_inj {d : Char} (hd : IsQuote d) {cs cs' : List Char}
    (h : escapeAll d cs = escapeAll d cs') : cs = cs' := by
  have happend : escapeAll d cs ++ [d] = escapeAll d cs' ++ [d] := by rw [h]
  exact (escapeAll_append_inj hd happend).1

/-- A text between quotes is determined by a text that starts with it, and so is what follows it. -/
theorem quoted_append_inj {s s' : String} {rest rest' : List Char}
    (h : quoted s ++ rest = quoted s' ++ rest') : s = s' ∧ rest = rest' := by
  unfold quoted at h
  simp only [List.cons_append, List.append_assoc, List.nil_append] at h
  obtain ⟨hs, hrest⟩ := escapeAll_append_inj (.inl rfl) (List.cons.inj h).2
  exact ⟨String.toList_inj.1 hs, hrest⟩

theorem quoted_inj {s s' : String} (h : quoted s = quoted s') : s = s' := by
  have happend : quoted s ++ [] = quoted s' ++ [] := by rw [h]
  exact (quoted_append_inj happend).1

/-- A character between quotes is determined by a text that starts with it, and so is what follows
it. -/
theorem quotedChar_append_inj {c c' : Char} {rest rest' : List Char}
    (h : quotedChar c ++ rest = quotedChar c' ++ rest') : c = c' ∧ rest = rest' := by
  unfold quotedChar at h
  simp only [List.cons_append, List.append_assoc, List.nil_append] at h
  obtain ⟨hc, hrest⟩ := escape_append_inj (.inr rfl) (List.cons.inj h).2
  exact ⟨hc, (List.cons.inj hrest).2⟩

/-! ## What is shown -/

/-- The control characters: the Unicode general category Cc. -/
def IsControl (c : Char) : Prop := c.toNat ≤ 0x1f ∨ 0x7f ≤ c.toNat ∧ c.toNat ≤ 0x9f

/-- The characters that end a line wherever they stand: line feed, vertical tab, form feed, carriage
return, next line, and the line and paragraph separators. -/
def lineBreaks : List Char := ['\n', '\x0b', '\x0c', '\r', '\u0085', '\u2028', '\u2029']

/-- The character ends a line. -/
def IsLineBreak (c : Char) : Prop := c ∈ lineBreaks

/-- The line breaks lie in three ranges of code points. -/
theorem lineBreaks_range : ∀ c ∈ lineBreaks, c.toNat ≤ 0x1f ∨ 0x7f ≤ c.toNat ∧ c.toNat ≤ 0x9f ∨
    0x2028 ≤ c.toNat ∧ c.toNat ≤ 0x2029 := List.all_iff_forall_prop.1 (by decide)

/-- Control characters and line breaks do not show as themselves. -/
theorem isHidden_of_isControl_or_isLineBreak {c : Char} (h : IsControl c ∨ IsLineBreak c) :
    isHidden c = true := by
  have hcode : c.toNat ≤ 0x1f ∨ 0x7f ≤ c.toNat ∧ c.toNat ≤ 0x9f ∨
      0x2028 ≤ c.toNat ∧ c.toNat ≤ 0x2029 := by
    rcases h with (hlow | hhigh) | hbreak
    · exact .inl hlow
    · exact .inr (.inl hhigh)
    · exact lineBreaks_range c hbreak
  have hrange : ∃ r ∈ unprintable, r.1 ≤ c.toNat ∧ c.toNat ≤ r.2 := by
    rcases hcode with h | ⟨hlow, hhigh⟩ | ⟨hlow, hhigh⟩
    · exact ⟨(0x0, 0x1f), by decide +kernel, Nat.zero_le _, h⟩
    · exact ⟨(0x7f, 0xa0), by decide +kernel, hlow, by omega⟩
    · exact ⟨(0x2028, 0x202f), by decide +kernel, hlow, by omega⟩
  exact isHidden_iff.2 ⟨unprintable, List.mem_cons_self, hrange⟩

/-- Every character shows by itself. -/
def Shown (cs : List Char) : Prop := ∀ c ∈ cs, isHidden c = false

theorem Shown.append {cs ds : List Char} (h : Shown cs) (hds : Shown ds) : Shown (cs ++ ds) :=
  List.forall_mem_append.2 ⟨h, hds⟩

instance (cs : List Char) : Decidable (Shown cs) :=
  decidable_of_iff ((cs.all fun c => isHidden c = false) = true) List.all_iff_forall_prop

/-- Every digit shows by itself, letters of the higher bases included. -/
theorem isHidden_digitChar : ∀ k < 16, isHidden k.digitChar = false := by decide

/-- A number shows by its digits. -/
theorem shown_toDigits {b : Nat} (hb : 1 < b) (hle : b ≤ 16) (n : Nat) :
    Shown (Nat.toDigits b n) := by
  intro c hc
  obtain ⟨k, hk, rfl⟩ := exists_digitChar_of_mem_toDigits hb hc
  exact isHidden_digitChar k (Nat.lt_of_lt_of_le hk hle)

/-- What is hidden is shown by its code point, and the rest shows by itself. -/
theorem Escaped.shown {d c : Char} {cs : List Char} (h : Escaped d c cs) : Shown cs := by
  cases h with
  | plain other unmarked shown => exact List.forall_mem_singleton.2 shown
  | letter l short shown =>
    exact List.forall_mem_cons.2 ⟨by decide, List.forall_mem_singleton.2 shown⟩
  | codePoint =>
    refine .append (.append ?_ (shown_toDigits (by decide) (by decide) c.toNat)) ?_
    · decide
    · decide

/-- Nothing that is hidden is shown raw. -/
theorem shown_escapeAll {d : Char} (hd : IsQuote d) (cs : List Char) : Shown (escapeAll d cs) := by
  intro x hx
  obtain ⟨c, -, hx⟩ := List.mem_flatMap.1 hx
  exact (escaped_escape hd c).shown x hx

/-- Whatever a text holds, all of it shows between quotes. -/
theorem shown_quoted (s : String) : Shown (quoted s) := by
  have hdelimiter : Shown ['"'] := by decide
  exact (hdelimiter.append (shown_escapeAll (.inl rfl) s.toList)).append hdelimiter

/-- Whatever the character, it shows between quotes. -/
theorem shown_quotedChar (c : Char) : Shown (quotedChar c) := by
  have hdelimiter : Shown ['\''] := by decide
  exact (hdelimiter.append (escaped_escape (.inr rfl) c).shown).append hdelimiter

end JsonTree.Text
