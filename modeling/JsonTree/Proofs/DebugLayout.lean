import JsonTree.Proofs.DebugTokens

/-!
# The two layouts of debug text show the same tokens

What is shown has the same tokens on one line as it has over several lines once their layout is
removed: a line break is followed by the indentation of its level, the comma behind the last part by
a closing bracket, and any other comma by a part, which starts with neither a blank nor a bracket
that closes.

- `Display.Formed`: words, quoted texts, and brackets around labelled parts.
- `Display.tokens`: the tokens of what is shown.
- `Display.Formed.tokens_compact`, `Display.Formed.tokens_pretty`: both layouts have them.
-/

namespace JsonTree

namespace DebugText

open Text

/-! ## Brackets and labels -/

/-- The brackets that open. -/
def openingBrackets : List Char := ['(', '[', '\x7b']

/-- What the reader and the removal of layout ask of a bracket, by evaluation. -/
theorem bracket_ne : ∀ c ∈ openingBrackets ++ closingBrackets,
    c.isAlpha = false ∧ c ≠ '"' ∧ c ≠ ' ' ∧ c ≠ '\n' ∧ c ≠ ',' :=
  List.all_iff_forall_prop.1 (by decide)

/-- A part that begins with a bracket does not make the comma before it layout. -/
theorem not_closing_of_opening : ∀ c ∈ openingBrackets, c ∉ closingBrackets :=
  List.all_iff_forall_prop.1 (by decide)

/-- A bracket is a token. -/
theorem tokens_bracket {c : Char} (h : c ∈ openingBrackets ++ closingBrackets) (rest : List Char) :
    tokens (c :: rest) = .mark c :: tokens rest := by
  obtain ⟨hletter, hquote, hblank, -, -⟩ := bracket_ne c h
  exact tokens_mark hletter hquote hblank rest

/-- A bracket is never layout. -/
theorem withoutLayout_bracket {c : Char} (h : c ∈ openingBrackets ++ closingBrackets)
    (rest : List Char) : withoutLayout .outside (c :: rest) = c :: withoutLayout .outside rest := by
  obtain ⟨-, hquote, -, hbreak, hcomma⟩ := bracket_ne c h
  exact withoutLayout_mark hquote hbreak hcomma rest

/-- An opening bracket, with or without a word before it. -/
inductive IsOpening : List Char → Prop where
  | bare {bracket : Char} (opens : bracket ∈ openingBrackets) : IsOpening [bracket]
  | named {name : List Char} {bracket : Char} (word : IsWord name)
    (opens : bracket ∈ openingBrackets) : IsOpening (name ++ [bracket])

/-- A quoted key with a colon and a blank behind it, or nothing. -/
inductive IsLabel : List Char → Prop where
  | absent : IsLabel []
  | key (k : String) : IsLabel (quoted k ++ [':', ' '])

/-- An opening bracket ends the word before it, so its tokens do not depend on what follows. -/
theorem IsOpening.tokens_append {cs : List Char} (h : IsOpening cs) (rest : List Char) :
    tokens (cs ++ rest) = tokens cs ++ tokens rest := by
  cases h with
  | bare opens =>
    have hbracket := List.mem_append_left closingBrackets opens
    rw [List.singleton_append, tokens_bracket hbracket, tokens_bracket hbracket]
    rfl
  | @named name bracket word opens =>
    have hbracket := List.mem_append_left closingBrackets opens
    have hstops : ∀ rest, Stops (bracket :: rest) := stops_cons (bracket_ne bracket hbracket).1
    rw [List.append_assoc, List.singleton_append, tokens_word word (hstops _),
      tokens_word word (hstops _), tokens_bracket hbracket, tokens_bracket hbracket]
    rfl

/-- Nothing in an opening is layout. -/
theorem IsOpening.withoutLayout_append {cs : List Char} (h : IsOpening cs) (rest : List Char) :
    withoutLayout .outside (cs ++ rest) = cs ++ withoutLayout .outside rest := by
  cases h with
  | bare opens => exact withoutLayout_bracket (List.mem_append_left closingBrackets opens) rest
  | named word opens =>
    rw [List.append_assoc, withoutLayout_word word, List.singleton_append,
      withoutLayout_bracket (List.mem_append_left closingBrackets opens), List.append_assoc]
    rfl

/-- A label ends in a blank, so its tokens do not depend on what follows. -/
theorem IsLabel.tokens_append {cs : List Char} (h : IsLabel cs) (rest : List Char) :
    tokens (cs ++ rest) = tokens cs ++ tokens rest := by
  cases h with
  | absent => rfl
  | key k =>
    have hcolon : ∀ rest, tokens (':' :: ' ' :: rest) = .mark ':' :: tokens rest := by
      intro rest
      rw [tokens_mark (by decide) (by decide) (by decide), tokens_blank]
    rw [List.append_assoc, tokens_quoted, tokens_quoted]
    show _ :: tokens (':' :: ' ' :: rest) = _ :: (tokens [':', ' '] ++ tokens rest)
    rw [hcolon, hcolon]
    rfl

/-- Nothing in a label is layout, however its key reads. -/
theorem IsLabel.withoutLayout_append {cs : List Char} (h : IsLabel cs) (rest : List Char) :
    withoutLayout .outside (cs ++ rest) = cs ++ withoutLayout .outside rest := by
  cases h with
  | absent => rfl
  | key k =>
    rw [List.append_assoc, withoutLayout_quoted]
    show _ ++ withoutLayout .outside (':' :: ' ' :: rest) = _
    rw [withoutLayout_mark (by decide) (by decide) (by decide),
      withoutLayout_mark (by decide) (by decide) (by decide), List.append_assoc]
    rfl

/-! ## Where a part begins -/

/-- A text that starts with neither a blank nor a closing bracket. -/
def Begins (cs : List Char) : Prop := ∃ c rest, cs = c :: rest ∧ c ≠ ' ' ∧ c ∉ closingBrackets

theorem Begins.append {cs : List Char} (h : Begins cs) (rest : List Char) : Begins (cs ++ rest) := by
  obtain ⟨c, tail, rfl, hblank, hopen⟩ := h
  exact ⟨c, tail ++ rest, rfl, hblank, hopen⟩

/-- The blanks that a line break takes along end before a part. -/
theorem Begins.dropWhile {cs : List Char} (h : Begins cs) : cs.dropWhile (· = ' ') = cs := by
  obtain ⟨c, tail, rfl, hblank, -⟩ := h
  exact List.dropWhile_cons_of_neg (by simpa using hblank)

/-- A comma before a part is not layout. -/
theorem Begins.closesFirst_eq {cs : List Char} (h : Begins cs) : closesFirst cs = false := by
  obtain ⟨c, tail, rfl, -, hopen⟩ := h
  simpa [closesFirst] using hopen

/-- A word begins with a letter. -/
theorem begins_word {cs : List Char} (h : IsWord cs) : Begins cs := by
  obtain ⟨c, rest, rfl⟩ := List.exists_cons_of_ne_nil h.nonempty
  have hc : c.isAlpha = true := h.letters c List.mem_cons_self
  refine ⟨c, rest, rfl, ne_of_isAlpha hc rfl, fun hmem => ?_⟩
  rw [(bracket_ne c (List.mem_append_right openingBrackets hmem)).1] at hc
  cases hc

/-- A quoted text begins with its quote. -/
theorem begins_quoted (s : String) : Begins (quoted s) := ⟨'"', _, rfl, by decide, by decide⟩

/-- An opening begins with a letter or with a bracket that opens. -/
theorem IsOpening.begins {cs : List Char} (h : IsOpening cs) : Begins cs := by
  cases h with
  | @bare bracket opens =>
    exact ⟨bracket, [], rfl, (bracket_ne bracket (List.mem_append_left _ opens)).2.2.1,
      not_closing_of_opening bracket opens⟩
  | named word => exact (begins_word word).append _

end DebugText

/-! ## What is shown -/

namespace Display

open DebugText Text

/-- What debug texts show: words, quoted texts, and brackets around labelled parts. -/
inductive Formed : Display → Prop where
  | word {cs : List Char} (isWord : IsWord cs) : Formed (.text cs)
  | quoted (s : String) : Formed (.text (Text.quoted s))
  | group {opening : List Char} {parts : List (List Char × Display)} {closing : Char}
    (opens : IsOpening opening) (closes : closing ∈ closingBrackets)
    (labels : ∀ part ∈ parts, IsLabel part.1) (inner : ∀ part ∈ parts, Formed part.2) :
    Formed (.group opening parts [closing])

mutual

/-- The tokens of what is shown, followed by `rest`. -/
def tokens : Display → List Lexeme → List Lexeme
  | .text cs, rest => DebugText.tokens cs ++ rest
  | .group opening parts closing, rest =>
    DebugText.tokens opening ++ partTokens parts (DebugText.tokens closing ++ rest)

/-- The tokens of parts, with commas between them, followed by `rest`. -/
def partTokens : List (List Char × Display) → List Lexeme → List Lexeme
  | [], rest => rest
  | (label, part) :: parts, rest =>
    DebugText.tokens label ++
      tokens part (if parts.isEmpty then rest else .mark ',' :: partTokens parts rest)

end

/-- A word is shown by one token. -/
theorem tokens_text_word {cs : List Char} (h : IsWord cs) (rest : List Lexeme) :
    (text cs).tokens rest = .word cs :: rest := by
  have hword := tokens_word h stops_nil
  rw [List.append_nil] at hword
  rw [tokens, hword]
  rfl

/-- A quoted text is shown by one token. -/
theorem tokens_text_quoted (s : String) (rest : List Lexeme) :
    (text (Text.quoted s)).tokens rest = .quoted (escapeAll '"' s.toList) :: rest := by
  have hquoted := tokens_quoted s []
  rw [List.append_nil] at hquoted
  rw [tokens, hquoted]
  rfl

/-- The closing bracket is a token of its own. -/
theorem tokens_group {closing : Char} (closes : closing ∈ closingBrackets) (opening : List Char)
    (parts : List (List Char × Display)) (rest : List Lexeme) :
    (group opening parts [closing]).tokens rest
      = DebugText.tokens opening ++ partTokens parts (.mark closing :: rest) := by
  rw [tokens, tokens_bracket (List.mem_append_right openingBrackets closes)]
  rfl

/-- On one line the parts between brackets have their tokens, if each of them has. -/
theorem tokens_compactParts {parts : List (List Char × Display)} {closing : Char}
    (closes : closing ∈ closingBrackets) (labels : ∀ part ∈ parts, IsLabel part.1)
    (inner : ∀ part ∈ parts, ∀ rest, Stops rest →
      DebugText.tokens (part.2.compact rest) = part.2.tokens (DebugText.tokens rest))
    (rest : List Char) :
    DebugText.tokens (compactParts parts (closing :: rest))
      = partTokens parts (.mark closing :: DebugText.tokens rest) := by
  have hclosing := List.mem_append_right openingBrackets closes
  induction parts with
  | nil => rw [compactParts, partTokens, tokens_bracket hclosing]
  | cons part parts ih =>
    obtain ⟨hlabel, labels⟩ := List.forall_mem_cons.1 labels
    obtain ⟨hpart, inner⟩ := List.forall_mem_cons.1 inner
    rw [compactParts, partTokens, hlabel.tokens_append]
    -- a part is followed by the closing bracket or by a comma, and both end its last token
    cases parts with
    | nil =>
      show _ ++ DebugText.tokens (part.2.compact (closing :: rest)) = _
      rw [hpart _ (stops_cons (bracket_ne closing hclosing).1 rest), tokens_bracket hclosing]
      rfl
    | cons next parts =>
      show _ ++ DebugText.tokens (part.2.compact
        (',' :: ' ' :: compactParts (next :: parts) (closing :: rest))) = _
      rw [hpart _ (stops_cons rfl _), tokens_mark (by decide) (by decide) (by decide),
        tokens_blank, ih labels inner]
      rfl

/-- On one line, what is shown has its tokens. -/
theorem Formed.tokens_compact {d : Display} (h : d.Formed) :
    ∀ rest, Stops rest → DebugText.tokens (d.compact rest) = d.tokens (DebugText.tokens rest) := by
  induction h with
  | word isWord =>
    intro rest hrest
    rw [compact, tokens_text_word isWord, tokens_word isWord hrest]
  | quoted s =>
    intro rest hrest
    rw [compact, tokens_text_quoted, tokens_quoted]
  | group opens closes labels inner ih =>
    intro rest hrest
    rw [compact, tokens_group closes, opens.tokens_append, List.singleton_append,
      tokens_compactParts closes labels ih]

/-! ## Several lines -/

/-- Without its layout, what is shown over several lines starts where it starts on one. -/
theorem Formed.begins_pretty {d : Display} (h : d.Formed) (level : Nat) (rest : List Char) :
    Begins (withoutLayout .outside (d.pretty level rest)) := by
  cases h with
  | word isWord =>
    rw [pretty, withoutLayout_word isWord]
    exact (begins_word isWord).append _
  | quoted s =>
    rw [pretty, withoutLayout_quoted]
    exact (begins_quoted s).append _
  | group opens =>
    rw [pretty, opens.withoutLayout_append]
    exact opens.begins.append _

/-- A part begins with its label, or with itself where there is none. -/
theorem Formed.begins_labelled {label : List Char} {part : Display} (hlabel : IsLabel label)
    (h : part.Formed) (level : Nat) (rest : List Char) :
    Begins (label ++ withoutLayout .outside (part.pretty level rest)) := by
  cases hlabel with
  | absent => exact h.begins_pretty level rest
  | key k => exact ((begins_quoted k).append _).append _

/-- The line of a closing bracket. -/
theorem closing_line {closing : Char} (closes : closing ∈ closingBrackets) (level : Nat)
    (rest : List Char) :
    withoutLayout .outside ('\n' :: (indent level ++ closing :: rest))
      = closing :: withoutLayout .outside rest := by
  have hclosing := List.mem_append_right openingBrackets closes
  have hblank : closing ≠ ' ' := (bracket_ne closing hclosing).2.2.1
  rw [withoutLayout_lineBreak, withoutLayout_indent, dropWhile_indent,
    withoutLayout_bracket hclosing, List.dropWhile_cons_of_neg (by simpa using hblank)]

/-- The line on which a part begins. -/
theorem Formed.part_line {label : List Char} {part : Display} (hlabel : IsLabel label)
    (h : part.Formed) (level : Nat) (rest : List Char) :
    withoutLayout .outside ('\n' :: (indent level ++ label ++ part.pretty level rest))
      = label ++ withoutLayout .outside (part.pretty level rest) := by
  rw [withoutLayout_lineBreak, List.append_assoc, withoutLayout_indent, dropWhile_indent,
    hlabel.withoutLayout_append, (h.begins_labelled hlabel level rest).dropWhile]

/-- The comma behind the last part is layout. -/
theorem last_comma {closing : Char} (closes : closing ∈ closingBrackets) (level : Nat)
    (rest : List Char) :
    withoutLayout .outside (',' :: '\n' :: (indent level ++ closing :: rest))
      = closing :: withoutLayout .outside rest := by
  rw [withoutLayout_comma, closing_line closes]
  exact if_pos (by simpa [closesFirst] using closes)

/-- The comma before another part stays. -/
theorem Formed.inner_comma {label : List Char} {part : Display} (hlabel : IsLabel label)
    (h : part.Formed) (level : Nat) (rest : List Char) :
    withoutLayout .outside (',' :: '\n' :: (indent level ++ label ++ part.pretty level rest))
      = ',' :: withoutLayout .outside ('\n' :: (indent level ++ label ++ part.pretty level rest)) := by
  rw [withoutLayout_comma, h.part_line hlabel, (h.begins_labelled hlabel level rest).closesFirst_eq]
  rfl

/-- Over several lines the parts between brackets have their tokens, if each of them has. -/
theorem tokens_prettyParts {parts : List (List Char × Display)} {closing : Char}
    (closes : closing ∈ closingBrackets) (labels : ∀ part ∈ parts, IsLabel part.1)
    (inner : ∀ part ∈ parts, part.2.Formed) (level outer : Nat)
    (spells : ∀ part ∈ parts, ∀ rest, Stops (withoutLayout .outside rest) →
      DebugText.tokens (withoutLayout .outside (part.2.pretty level rest))
        = part.2.tokens (DebugText.tokens (withoutLayout .outside rest)))
    (rest : List Char) :
    DebugText.tokens (withoutLayout .outside
        ('\n' :: prettyParts parts level (indent outer ++ closing :: rest)))
      = partTokens parts (.mark closing :: DebugText.tokens (withoutLayout .outside rest)) := by
  have hclosing := List.mem_append_right openingBrackets closes
  -- the line break in front is part of what the induction is on: it takes the indentation along
  induction parts with
  | nil => rw [prettyParts, closing_line closes, partTokens, tokens_bracket hclosing]
  | cons part parts ih =>
    obtain ⟨hlabel, labels⟩ := List.forall_mem_cons.1 labels
    obtain ⟨hpart, inner⟩ := List.forall_mem_cons.1 inner
    obtain ⟨hspells, spells⟩ := List.forall_mem_cons.1 spells
    rw [prettyParts, partTokens, hpart.part_line hlabel, hlabel.tokens_append]
    cases parts with
    | nil =>
      have hcomma := last_comma closes outer rest
      rw [prettyParts, hspells _ (hcomma ▸ stops_cons (bracket_ne closing hclosing).1 _), hcomma,
        tokens_bracket hclosing]
      rfl
    | cons next parts =>
      obtain ⟨hnext, -⟩ := List.forall_mem_cons.1 labels
      obtain ⟨hformed, -⟩ := List.forall_mem_cons.1 inner
      have hcomma := hformed.inner_comma hnext level
        (',' :: '\n' :: prettyParts parts level (indent outer ++ closing :: rest))
      rw [← prettyParts] at hcomma
      rw [hspells _ (hcomma ▸ stops_cons rfl _), hcomma,
        tokens_mark (by decide) (by decide) (by decide), ih labels inner spells]
      rfl

/-- Over several lines, what is shown has its tokens once the layout is removed. -/
theorem Formed.tokens_pretty {d : Display} (h : d.Formed) :
    ∀ level rest, Stops (withoutLayout .outside rest) →
      DebugText.tokens (withoutLayout .outside (d.pretty level rest))
        = d.tokens (DebugText.tokens (withoutLayout .outside rest)) := by
  induction h with
  | word isWord =>
    intro level rest hrest
    rw [pretty, withoutLayout_word isWord]
    exact (Formed.word isWord).tokens_compact _ hrest
  | quoted s =>
    intro level rest hrest
    rw [pretty, withoutLayout_quoted]
    exact (Formed.quoted s).tokens_compact _ hrest
  | @group opening parts closing opens closes labels inner ih =>
    intro level rest hrest
    rw [pretty, tokens_group closes, opens.withoutLayout_append, opens.tokens_append]
    -- without parts there is no line break
    cases parts with
    | nil =>
      have hclosing := List.mem_append_right openingBrackets closes
      show _ ++ DebugText.tokens (withoutLayout .outside (closing :: rest)) = _
      rw [withoutLayout_bracket hclosing, tokens_bracket hclosing]
      rfl
    | cons part parts =>
      show _ ++ DebugText.tokens (withoutLayout .outside ('\n' :: prettyParts (part :: parts)
        (level + 1) (indent level ++ [closing] ++ rest))) = _
      rw [List.append_assoc, List.singleton_append,
        tokens_prettyParts closes labels inner (level + 1) level fun part hpart => ih part hpart _]

/-! ## Parts of one shape -/

/-- The tokens of a labelled part, followed by `rest`. -/
def labelledTokens (part : List Char × Display) (rest : List Lexeme) : List Lexeme :=
  DebugText.tokens part.1 ++ part.2.tokens rest

/-- Between parts stands a comma, behind the last one none. -/
theorem partTokens_cons (part : List Char × Display) (parts : List (List Char × Display))
    (rest : List Lexeme) :
    partTokens (part :: parts) rest
      = labelledTokens part (if parts.isEmpty then rest else .mark ',' :: partTokens parts rest) := by
  rw [partTokens, labelledTokens]

/-- Parts up to a closing bracket are determined by their tokens, if each of them is by its own. -/
theorem partTokens_inj {α : Type} {shown : α → List Char × Display} {closing : Char}
    (closes : closing ∈ closingBrackets)
    (starts : ∀ x rest rest', labelledTokens (shown x) rest ≠ .mark closing :: rest')
    {xs ys : List α} (inner : ∀ x ∈ xs, ∀ y rest rest',
      labelledTokens (shown x) rest = labelledTokens (shown y) rest' → x = y ∧ rest = rest')
    {rest rest' : List Lexeme}
    (h : partTokens (xs.map shown) (.mark closing :: rest)
      = partTokens (ys.map shown) (.mark closing :: rest')) : xs = ys ∧ rest = rest' := by
  have hcomma : closing ≠ ',' := by
    rintro rfl
    exact absurd closes (by decide)
  induction xs generalizing ys with
  | nil =>
    cases ys with
    | nil => exact ⟨rfl, (List.cons.inj h).2⟩
    | cons y ys =>
      rw [List.map_cons, partTokens_cons] at h
      exact absurd h.symm (starts y _ _)
  | cons x xs ih =>
    rw [List.map_cons, partTokens_cons] at h
    obtain ⟨hx, inner⟩ := List.forall_mem_cons.1 inner
    cases ys with
    | nil => exact absurd h (starts x _ _)
    | cons y ys =>
      rw [List.map_cons, partTokens_cons] at h
      obtain ⟨rfl, hrest⟩ := hx y _ _ h
      -- behind a part stands the closing bracket or a comma
      cases xs with
      | nil =>
        cases ys with
        | nil => exact ⟨rfl, (List.cons.inj hrest).2⟩
        | cons y ys => exact absurd (Lexeme.mark.inj (List.cons.inj hrest).1) hcomma
      | cons x' xs =>
        cases ys with
        | nil => exact absurd (Lexeme.mark.inj (List.cons.inj hrest).1).symm hcomma
        | cons y ys =>
          obtain ⟨hxs, hrest⟩ := ih inner (List.cons.inj hrest).2
          exact ⟨congrArg _ hxs, hrest⟩

/-- The quoted tokens of parts are those of each of them. -/
theorem quoted_partTokens {α : Type} {shown : α → List Char × Display} {texts : α → List (List Char)}
    {xs : List α} (inner : ∀ x ∈ xs, ∀ rest,
      (labelledTokens (shown x) rest).filterMap Lexeme.quoted?
        = texts x ++ rest.filterMap Lexeme.quoted?)
    (rest : List Lexeme) :
    (partTokens (xs.map shown) rest).filterMap Lexeme.quoted?
      = xs.flatMap texts ++ rest.filterMap Lexeme.quoted? := by
  induction xs with
  | nil => rfl
  | cons x xs ih =>
    obtain ⟨hx, inner⟩ := List.forall_mem_cons.1 inner
    rw [List.map_cons, partTokens_cons, hx, List.flatMap_cons, List.append_assoc]
    cases xs with
    | nil => rfl
    | cons x' xs => exact congrArg _ (ih inner)

/-! ## One line -/

/-- No character ends the line. -/
def OneLine (cs : List Char) : Prop := ∀ c ∈ cs, ¬ IsLineBreak c

theorem OneLine.append {cs ds : List Char} (h : OneLine cs) (hds : OneLine ds) :
    OneLine (cs ++ ds) := List.forall_mem_append.2 ⟨h, hds⟩

/-- No letter ends a line. -/
theorem isAlpha_lineBreak : ∀ c ∈ lineBreaks, c.isAlpha = false :=
  List.all_iff_forall_prop.1 (by decide)

/-- Letters stay on their line. -/
theorem oneLine_word {cs : List Char} (h : IsWord cs) : OneLine cs := by
  intro c hc hbreak
  exact ne_of_isAlpha (h.letters c hc) (isAlpha_lineBreak c hbreak) rfl

/-- A character that is shown is no line break. -/
theorem oneLine_of_shown {cs : List Char} (h : Shown cs) : OneLine cs := by
  intro c hc hbreak
  have hhidden := isHidden_of_isControl_or_isLineBreak (.inr hbreak)
  rw [h c hc] at hhidden
  cases hhidden

/-- A quoted text stays on its line, since a line break in it is shown escaped. -/
theorem oneLine_quoted (s : String) : OneLine (quoted s) := oneLine_of_shown (shown_quoted s)

/-- No bracket ends a line. -/
theorem bracket_not_lineBreak : ∀ c ∈ openingBrackets ++ closingBrackets, c ∉ lineBreaks :=
  List.all_iff_forall_prop.1 (by decide)

theorem oneLine_bracket {c : Char} (h : c ∈ openingBrackets ++ closingBrackets) : OneLine [c] := by
  intro d hd
  rw [List.mem_singleton.1 hd]
  exact bracket_not_lineBreak c h

theorem oneLine_opening {cs : List Char} (h : IsOpening cs) : OneLine cs := by
  cases h with
  | bare opens => exact oneLine_bracket (List.mem_append_left _ opens)
  | named word opens =>
    exact (oneLine_word word).append (oneLine_bracket (List.mem_append_left _ opens))

theorem oneLine_label {cs : List Char} (h : IsLabel cs) : OneLine cs := by
  cases h with
  | absent => exact nofun
  | key k => exact (oneLine_quoted k).append (oneLine_of_shown (by decide))

/-- On one line, parts have no line break if none of them has. -/
theorem oneLine_compactParts {parts : List (List Char × Display)}
    (labels : ∀ part ∈ parts, IsLabel part.1)
    (inner : ∀ part ∈ parts, ∀ rest, OneLine rest → OneLine (part.2.compact rest))
    {rest : List Char} (hrest : OneLine rest) : OneLine (compactParts parts rest) := by
  induction parts with
  | nil => exact hrest
  | cons part parts ih =>
    obtain ⟨hlabel, labels⟩ := List.forall_mem_cons.1 labels
    obtain ⟨hpart, inner⟩ := List.forall_mem_cons.1 inner
    rw [compactParts]
    refine (oneLine_label hlabel).append (hpart _ ?_)
    split
    · exact hrest
    · have hcomma : OneLine [',', ' '] := oneLine_of_shown (by decide)
      exact hcomma.append (ih labels inner)

/-- What is shown on one line has no line break. -/
theorem Formed.oneLine_compact {d : Display} (h : d.Formed) :
    ∀ rest, OneLine rest → OneLine (d.compact rest) := by
  induction h with
  | word isWord => exact fun rest hrest => (oneLine_word isWord).append hrest
  | quoted s => exact fun rest hrest => (oneLine_quoted s).append hrest
  | group opens closes labels inner ih =>
    intro rest hrest
    rw [compact]
    have hclosing := oneLine_bracket (List.mem_append_right openingBrackets closes)
    exact (oneLine_opening opens).append (oneLine_compactParts labels ih (hclosing.append hrest))

end Display

end JsonTree
