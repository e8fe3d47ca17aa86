import JsonTree.Document.Debug
import JsonTree.Proofs.EscapedText

/-!
# Reading debug text

A debug text is read as words, stretches between quotes, and marks. Layout stands outside quotes:
line breaks, the indentation behind them, and a comma that comes last before a closing bracket.
Reading and removing layout both go through the text once, from place to place.

- `DebugText.lexemes`, `DebugText.tokens`: the parts of a text, and those that are no blanks.
- `DebugText.tokens_word`, `DebugText.tokens_quoted`, `DebugText.tokens_mark`: reading one part.
- `DebugText.withoutLayout`: the text without its layout.
- `DebugText.quotes_withoutLayout`: the stretches between quotes are left alone.
-/

namespace JsonTree

namespace DebugText

open Text

/-- A part of a debug text: a run of letters, a stretch between quotes as it is written, or another
character. -/
inductive Lexeme where
  | word (letters : List Char)
  | quoted (inside : List Char)
  | mark (c : Char)
deriving DecidableEq

/-- Where a reader stands: outside quotes, inside, or inside behind a backslash. -/
inductive Place where
  | outside
  | inside
  | escaped
deriving DecidableEq

/-- The place behind one more character. -/
def Place.next : Place → Char → Place
  | .outside, c => if c = '"' then .inside else .outside
  | .inside, c => if c = '"' then .outside else if c = '\\' then .escaped else .inside
  | .escaped, _ => .inside

/-- A letter in front: it belongs to the word that follows without a gap. -/
def growWord (c : Char) : List Lexeme → List Lexeme
  | .word letters :: ls => .word (c :: letters) :: ls
  | ls => .word [c] :: ls

/-- A character in front, inside the quotes that are open. -/
def growQuoted (c : Char) : List Lexeme → List Lexeme
  | .quoted inside :: ls => .quoted (c :: inside) :: ls
  | ls => .quoted [c] :: ls

/-- The parts of a text, read from a place. Quotes that are not closed reach to the end. -/
def lexemes : Place → List Char → List Lexeme
  | .outside, [] => []
  | .outside, c :: cs =>
    if c = '"' then lexemes .inside cs
    else if c.isAlpha then growWord c (lexemes .outside cs)
    else .mark c :: lexemes .outside cs
  | .inside, [] => [.quoted []]
  | .inside, c :: cs =>
    if c = '"' then .quoted [] :: lexemes .outside cs
    else growQuoted c (lexemes (Place.inside.next c) cs)
  | .escaped, [] => [.quoted []]
  | .escaped, c :: cs => growQuoted c (lexemes .inside cs)

/-- The tokens of a text: its parts other than blanks. -/
def tokens (cs : List Char) : List Lexeme :=
  (lexemes .outside cs).filter fun l => l ≠ .mark ' '

/-- The brackets that close. -/
def closingBrackets : List Char := [')', ']', '\x7d']

/-- Whether a text goes on with a closing bracket. -/
def closesFirst (cs : List Char) : Bool := cs.head?.any fun c => closingBrackets.contains c

/-- A text without its layout. Outside quotes this takes out the line breaks with the blanks behind
them, and the commas that a closing bracket follows then; between quotes everything stays. -/
def withoutLayout : Place → List Char → List Char
  | _, [] => []
  | place, c :: cs =>
    let rest := withoutLayout (place.next c) cs
    if place = .outside ∧ c = '\n' then rest.dropWhile (· = ' ')
    else if place = .outside ∧ c = ',' ∧ closesFirst rest then rest
    else c :: rest

/-! ## Reading -/

/-- Growing a stretch leaves one in front, whatever was there. -/
theorem exists_growQuoted (c : Char) (ls : List Lexeme) :
    ∃ inside rest, growQuoted c ls = .quoted inside :: rest := by
  unfold growQuoted
  split
  · exact ⟨_, _, rfl⟩
  · exact ⟨_, _, rfl⟩

/-- Inside quotes the first part is what is left of the stretch. -/
theorem exists_lexemes_inside (place : Place) (h : place ≠ .outside) (cs : List Char) :
    ∃ inside rest, lexemes place cs = .quoted inside :: rest := by
  cases place with
  | outside => exact absurd rfl h
  | inside =>
    cases cs with
    | nil => exact ⟨_, _, rfl⟩
    | cons c cs =>
      rw [lexemes]
      split
      · exact ⟨_, _, rfl⟩
      · exact exists_growQuoted c _
  | escaped =>
    cases cs with
    | nil => exact ⟨_, _, rfl⟩
    | cons c cs =>
      rw [lexemes]
      exact exists_growQuoted c _

/-- A run of letters. -/
structure IsWord (cs : List Char) : Prop where
  nonempty : cs ≠ []
  letters : ∀ c ∈ cs, c.isAlpha = true

instance (cs : List Char) : Decidable (IsWord cs) :=
  decidable_of_iff (cs ≠ [] ∧ cs.all Char.isAlpha = true)
    ⟨fun h => ⟨h.1, List.all_eq_true.1 h.2⟩, fun h => ⟨h.nonempty, List.all_eq_true.2 h.letters⟩⟩

/-- A letter is none of the characters that the reader looks for. -/
theorem ne_of_isAlpha {c d : Char} (h : c.isAlpha = true) (hd : d.isAlpha = false) : c ≠ d := by
  rintro rfl
  rw [h] at hd
  cases hd

/-- No letter comes next, so a word may end here. -/
def Stops (cs : List Char) : Prop := ∀ c ∈ cs.head?, c.isAlpha = false

theorem stops_nil : Stops [] := nofun

theorem stops_cons {c : Char} (h : c.isAlpha = false) (cs : List Char) : Stops (c :: cs) := by
  rintro d ⟨⟩
  exact h

/-- Outside quotes, a character that is neither a letter nor a quote stands for itself. -/
theorem lexemes_mark {c : Char} (hletter : c.isAlpha = false) (hquote : c ≠ '"') (rest : List Char) :
    lexemes .outside (c :: rest) = .mark c :: lexemes .outside rest := by
  rw [lexemes, if_neg hquote, hletter, if_neg Bool.false_ne_true]

/-- Outside quotes, a letter is put in front of the word that is read behind it. -/
theorem lexemes_letter {c : Char} (h : c.isAlpha = true) (rest : List Char) :
    lexemes .outside (c :: rest) = growWord c (lexemes .outside rest) := by
  rw [lexemes, if_neg (ne_of_isAlpha h rfl), if_pos h]

/-- Where no letter follows, a letter is a word of its own. -/
theorem growWord_of_stops {c : Char} {rest : List Char} (h : Stops rest) :
    growWord c (lexemes .outside rest) = .word [c] :: lexemes .outside rest := by
  cases rest with
  | nil => rfl
  | cons d rest =>
    by_cases hquote : d = '"'
    · obtain ⟨inside, ls, hls⟩ := exists_lexemes_inside .inside nofun rest
      rw [hquote, lexemes, if_pos rfl, hls]
      rfl
    · rw [lexemes_mark (h d rfl) hquote]
      rfl

/-- Letters are read as one word, if no letter follows. -/
theorem lexemes_word {cs rest : List Char} (h : IsWord cs) (hrest : Stops rest) :
    lexemes .outside (cs ++ rest) = .word cs :: lexemes .outside rest := by
  obtain ⟨hne, hletters⟩ := h
  induction cs with
  | nil => exact absurd rfl hne
  | cons c cs ih =>
    obtain ⟨hc, hcs⟩ := List.forall_mem_cons.1 hletters
    rw [List.cons_append, lexemes_letter hc]
    cases cs with
    | nil => exact growWord_of_stops hrest
    | cons d ds => rw [ih (List.cons_ne_nil d ds) hcs, growWord]

/-- A text in which every quote stands behind a backslash is read as one stretch, up to the quote
behind it. -/
theorem lexemes_enclosed {cs : List Char} (h : Enclosed '"' cs) (rest : List Char) :
    lexemes .inside (cs ++ '"' :: rest) = .quoted cs :: lexemes .outside rest := by
  induction h with
  | nil => rw [List.nil_append, lexemes, if_pos rfl]
  | plain other unmarked _ ih =>
    rw [List.cons_append, lexemes, if_neg other, Place.next, if_neg other, if_neg unmarked, ih,
      growQuoted]
  | marked c _ ih =>
    show growQuoted '\\' (growQuoted c (lexemes .inside (_ ++ '"' :: rest))) = _
    rw [ih, growQuoted, growQuoted]

/-! ## Tokens -/

/-- A mark that is no blank is a token. -/
theorem tokens_mark {c : Char} (hletter : c.isAlpha = false) (hquote : c ≠ '"') (hblank : c ≠ ' ')
    (rest : List Char) : tokens (c :: rest) = .mark c :: tokens rest := by
  unfold tokens
  rw [lexemes_mark hletter hquote, List.filter_cons_of_pos (by simpa using hblank)]

/-- Blanks outside quotes are no tokens. -/
theorem tokens_blank (rest : List Char) : tokens (' ' :: rest) = tokens rest := by
  unfold tokens
  rw [lexemes_mark (by decide) (by decide), List.filter_cons_of_neg (by simp)]

/-- Letters are one token, up to where no letter follows. -/
theorem tokens_word {cs rest : List Char} (h : IsWord cs) (hrest : Stops rest) :
    tokens (cs ++ rest) = .word cs :: tokens rest := by
  unfold tokens
  rw [lexemes_word h hrest, List.filter_cons_of_pos (by simp)]

/-- A quoted text is one token, which holds its escaped form, whatever follows the closing quote. -/
theorem tokens_quoted (s : String) (rest : List Char) :
    tokens (quoted s ++ rest) = .quoted (escapeAll '"' s.toList) :: tokens rest := by
  have hread : lexemes .outside (quoted s ++ rest)
      = .quoted (escapeAll '"' s.toList) :: lexemes .outside rest := by
    have hsplit : quoted s ++ rest = '"' :: (escapeAll '"' s.toList ++ '"' :: rest) := by
      simp [quoted]
    rw [hsplit, lexemes, if_pos rfl, lexemes_enclosed (enclosed_escapeAll (.inl rfl) _)]
  unfold tokens
  rw [hread, List.filter_cons_of_pos (by simp)]

/-! ## Removing layout -/

/-- Outside quotes only line breaks and commas may be taken out, and inside nothing. -/
theorem withoutLayout_kept {place : Place} {c : Char}
    (h : place = .outside → c ≠ '\n' ∧ c ≠ ',') (rest : List Char) :
    withoutLayout place (c :: rest) = c :: withoutLayout (place.next c) rest := by
  have hbreak : ¬ (place = .outside ∧ c = '\n') := fun hc => (h hc.1).1 hc.2
  have hcomma (p : Prop) : ¬ (place = .outside ∧ c = ',' ∧ p) := fun hc => (h hc.1).2 hc.2.1
  rw [withoutLayout, if_neg hbreak, if_neg (hcomma _)]

/-- No character between quotes is layout. -/
theorem withoutLayout_inside (place : Place) (h : place ≠ .outside) (c : Char) (rest : List Char) :
    withoutLayout place (c :: rest) = c :: withoutLayout (place.next c) rest :=
  withoutLayout_kept (fun hplace => absurd hplace h) rest

/-- Outside quotes, a character that starts no layout stays, and the place stays outside. -/
theorem withoutLayout_mark {c : Char} (hquote : c ≠ '"') (hbreak : c ≠ '\n') (hcomma : c ≠ ',')
    (rest : List Char) :
    withoutLayout .outside (c :: rest) = c :: withoutLayout .outside rest := by
  rw [withoutLayout_kept fun _ => ⟨hbreak, hcomma⟩, Place.next, if_neg hquote]

/-- A line break takes the blanks behind it along. -/
theorem withoutLayout_lineBreak (rest : List Char) :
    withoutLayout .outside ('\n' :: rest) = (withoutLayout .outside rest).dropWhile (· = ' ') := by
  simp [withoutLayout, Place.next]

/-- Whether a comma is layout is decided by what is left of the text behind it. -/
theorem withoutLayout_comma (rest : List Char) :
    withoutLayout .outside (',' :: rest) =
      if closesFirst (withoutLayout .outside rest) then withoutLayout .outside rest
      else ',' :: withoutLayout .outside rest := by
  simp [withoutLayout, Place.next]

/-- Letters are never layout. -/
theorem withoutLayout_word {cs : List Char} (h : IsWord cs) (rest : List Char) :
    withoutLayout .outside (cs ++ rest) = cs ++ withoutLayout .outside rest := by
  obtain ⟨-, hletters⟩ := h
  induction cs with
  | nil => rfl
  | cons c cs ih =>
    obtain ⟨hc, hcs⟩ := List.forall_mem_cons.1 hletters
    rw [List.cons_append, withoutLayout_mark (ne_of_isAlpha hc rfl) (ne_of_isAlpha hc rfl)
      (ne_of_isAlpha hc rfl), ih hcs, List.cons_append]

/-- Inside quotes the place returns to the outside only at the closing quote. -/
theorem withoutLayout_enclosed {cs : List Char} (h : Enclosed '"' cs) (rest : List Char) :
    withoutLayout .inside (cs ++ '"' :: rest) = cs ++ '"' :: withoutLayout .outside rest := by
  induction h with
  | nil => exact withoutLayout_inside .inside nofun '"' rest
  | plain other unmarked _ ih =>
    rw [List.cons_append, withoutLayout_inside .inside nofun, Place.next, if_neg other,
      if_neg unmarked, ih, List.cons_append]
  | marked c _ ih =>
    rw [List.cons_append, List.cons_append, withoutLayout_inside .inside nofun]
    show '\\' :: withoutLayout .escaped (c :: (_ ++ '"' :: rest)) = _
    rw [withoutLayout_inside .escaped nofun, Place.next, ih]
    rfl

/-- A quoted text stays as it is, line breaks and commas in it included. -/
theorem withoutLayout_quoted (s : String) (rest : List Char) :
    withoutLayout .outside (quoted s ++ rest) = quoted s ++ withoutLayout .outside rest := by
  have hsplit : ∀ rest, quoted s ++ rest = '"' :: (escapeAll '"' s.toList ++ '"' :: rest) := by
    simp [quoted]
  rw [hsplit, hsplit, withoutLayout_kept fun _ => ⟨by decide, by decide⟩, Place.next,
    if_pos rfl,
    withoutLayout_enclosed (enclosed_escapeAll (.inl rfl) _)]

/-- Blanks stay unless a line break stands before them. -/
theorem withoutLayout_indent (level : Nat) (rest : List Char) :
    withoutLayout .outside (Display.indent level ++ rest)
      = Display.indent level ++ withoutLayout .outside rest := by
  unfold Display.indent
  induction 4 * level with
  | zero => rfl
  | succ n ih =>
    rw [List.replicate_succ, List.cons_append,
      withoutLayout_mark (by decide) (by decide) (by decide), ih, List.cons_append]

/-- An indentation is dropped whole, whatever its level. -/
theorem dropWhile_indent (level : Nat) (cs : List Char) :
    (Display.indent level ++ cs).dropWhile (· = ' ') = cs.dropWhile (· = ' ') := by
  unfold Display.indent
  induction 4 * level with
  | zero => rfl
  | succ n ih =>
    rw [List.replicate_succ, List.cons_append, List.dropWhile_cons_of_pos (by decide), ih]

/-! ## Stretches between quotes -/

/-- What stands between quotes. -/
def Lexeme.quoted? : Lexeme → Option (List Char)
  | .quoted inside => some inside
  | _ => none

/-- The stretches between quotes, in order. -/
def quotes (place : Place) (cs : List Char) : List (List Char) :=
  (lexemes place cs).filterMap Lexeme.quoted?

/-- Blanks do not stand between quotes. -/
theorem quoted_tokens (cs : List Char) :
    (tokens cs).filterMap Lexeme.quoted? = quotes .outside cs := by
  unfold tokens quotes
  rw [List.filterMap_filter]
  congr 1
  funext l
  split
  · rfl
  · next hblank =>
    obtain rfl : l = .mark ' ' := by simpa using hblank
    rfl

/-- A letter changes no stretch between quotes. -/
theorem filterMap_growWord (c : Char) (ls : List Lexeme) :
    (growWord c ls).filterMap Lexeme.quoted? = ls.filterMap Lexeme.quoted? := by
  unfold growWord
  split
  · rfl
  · rfl

/-- Outside quotes, a character does not belong to any stretch; it may open one. -/
theorem quotes_outside (c : Char) (cs : List Char) :
    quotes .outside (c :: cs) = quotes (Place.outside.next c) cs := by
  unfold quotes
  rw [lexemes, Place.next]
  by_cases hquote : c = '"'
  · rw [if_pos hquote, if_pos hquote]
  · rw [if_neg hquote, if_neg hquote]
    split
    · exact filterMap_growWord c _
    · rfl

/-- Inside quotes, a character belongs to the first stretch. -/
theorem quotes_growQuoted (place : Place) (h : place ≠ .outside) (c : Char) (cs : List Char) :
    (growQuoted c (lexemes place cs)).filterMap Lexeme.quoted?
      = (quotes place cs).modifyHead (c :: ·) := by
  obtain ⟨inside, rest, hls⟩ := exists_lexemes_inside place h cs
  unfold quotes
  rw [hls]
  rfl

/-- The stretches are determined by those behind the first character. -/
theorem quotes_cons_congr {place : Place} {c : Char} {cs ds : List Char}
    (h : quotes (place.next c) cs = quotes (place.next c) ds) :
    quotes place (c :: cs) = quotes place (c :: ds) := by
  cases place with
  | outside => rw [quotes_outside, quotes_outside, h]
  | inside =>
    by_cases hquote : c = '"'
    · rw [Place.next, if_pos hquote] at h
      show (lexemes .inside (c :: cs)).filterMap _ = (lexemes .inside (c :: ds)).filterMap _
      rw [lexemes, lexemes, if_pos hquote, if_pos hquote]
      exact congrArg ([] :: ·) h
    · have hnext : Place.inside.next c ≠ .outside := by
        rw [Place.next, if_neg hquote]
        split <;> nofun
      show (lexemes .inside (c :: cs)).filterMap _ = (lexemes .inside (c :: ds)).filterMap _
      rw [lexemes, lexemes, if_neg hquote, if_neg hquote, quotes_growQuoted _ hnext,
        quotes_growQuoted _ hnext, h]
  | escaped =>
    show (growQuoted c _).filterMap _ = (growQuoted c _).filterMap _
    rw [quotes_growQuoted .inside nofun, quotes_growQuoted .inside nofun]
    exact congrArg _ h

/-- Blanks outside quotes belong to no stretch. -/
theorem quotes_dropWhile (cs : List Char) :
    quotes .outside (cs.dropWhile (· = ' ')) = quotes .outside cs := by
  induction cs with
  | nil => rfl
  | cons c cs ih =>
    by_cases hblank : c = ' '
    · rw [List.dropWhile_cons_of_pos (by simpa using hblank), ih, quotes_outside, Place.next,
        if_neg (by rw [hblank]; decide)]
    · rw [List.dropWhile_cons_of_neg (by simpa using hblank)]

/-- Removing layout leaves the stretches between quotes alone. -/
theorem quotes_withoutLayout (place : Place) (cs : List Char) :
    quotes place (withoutLayout place cs) = quotes place cs := by
  induction cs generalizing place with
  | nil => rfl
  | cons c cs ih =>
    by_cases hbreak : place = .outside ∧ c = '\n'
    · obtain ⟨rfl, rfl⟩ := hbreak
      rw [withoutLayout_lineBreak, quotes_dropWhile, ih, quotes_outside]
      rfl
    by_cases hcomma : place = .outside ∧ c = ','
    · obtain ⟨rfl, rfl⟩ := hcomma
      rw [withoutLayout_comma]
      split
      · rw [ih, quotes_outside]
        rfl
      · exact quotes_cons_congr (ih .outside)
    · rw [withoutLayout_kept fun h => ⟨fun hc => hbreak ⟨h, hc⟩, fun hc => hcomma ⟨h, hc⟩⟩]
      exact quotes_cons_congr (ih _)

end DebugText

end JsonTree
