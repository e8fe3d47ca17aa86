import JsonTree.Proofs.DebugLayout
import JsonTree.Tree.Lemmas

/-!
# Debug text is unambiguous

The tokens of a debug text determine the document. The first token is the word for its kind, a quoted
token determines the text that it was escaped from, and the parts between brackets end at the first
closing bracket that no part has opened. Both layouts show the same tokens, so neither of them shows
two documents alike.

- `Document.display_formed`: what is shown of a document is made of words, quoted texts and brackets.
- `Document.tokens_display_inj`: a document and what follows it are determined by their tokens.
- `Document.payloads`: the texts that a document holds; `Document.quotes_prettyDebug`: they stand
  between the quotes of its debug text, and nothing else does.
- `Document.debug_unambiguous`: what debug text tells of a document.
-/

namespace JsonTree

/-- The word that a kind is shown with. -/
def Kind.shownName : Kind → String
  | .null => "Null"
  | .boolean => "Boolean"
  | .string => "String"
  | .number => "Number"
  | .array => "Array"
  | .object => "Object"

/-- Each kind has a word of its own. -/
theorem Kind.shownName_inj {k k' : Kind} (h : k.shownName.toList = k'.shownName.toList) : k = k' := by
  cases k with
  | null =>
    cases k' with
    | null => rfl
    | _ => exact absurd h (by decide)
  | boolean =>
    cases k' with
    | boolean => rfl
    | _ => exact absurd h (by decide)
  | string =>
    cases k' with
    | string => rfl
    | _ => exact absurd h (by decide)
  | number =>
    cases k' with
    | number => rfl
    | _ => exact absurd h (by decide)
  | array =>
    cases k' with
    | array => rfl
    | _ => exact absurd h (by decide)
  | object =>
    cases k' with
    | object => rfl
    | _ => exact absurd h (by decide)

namespace Display

open DebugText

/-- A name around one part makes a group with one part and no label. -/
theorem formed_wrapped {name : String} (word : IsWord name.toList) {part : Display}
    (h : part.Formed) : (wrapped name part).Formed := by
  refine .group (.named word (by decide)) (by decide) ?_ ?_
  · intro labelled hlabelled
    rw [List.mem_singleton.1 hlabelled]
    exact .absent
  · intro labelled hlabelled
    rw [List.mem_singleton.1 hlabelled]
    exact h

/-- A name around one part puts two tokens before its tokens and one behind them. -/
theorem tokens_wrapped {name : String} (word : IsWord name.toList) (part : Display)
    (rest : List Lexeme) :
    (wrapped name part).tokens rest
      = .word name.toList :: .mark '(' :: part.tokens (.mark ')' :: rest) := by
  have hopening : DebugText.tokens (name.toList ++ ['(']) = [.word name.toList, .mark '('] :=
    tokens_word word (stops_cons rfl [])
  rw [wrapped, tokens_group (by decide), hopening]
  rfl

end Display

namespace Document

open DebugText Display

variable {p : Policy}

/-- An item as a part: without a label. -/
def shownItem (t : Document p) : List Char × Display := ([], t.display)

/-- A member as a part: its key is the label. -/
def shownMember (m : String × Document p) : List Char × Display :=
  (Text.quoted m.1 ++ [':', ' '], m.2.display)

/-- The parts of an array are its items. -/
theorem displayItems_eq_map (items : List (Document p)) :
    displayItems items = items.map shownItem := by
  induction items with
  | nil => rfl
  | cons t ts ih => rw [displayItems, ih, List.map_cons, shownItem]

/-- The parts of an object are its members. -/
theorem displayMembers_eq_map (members : List (String × Document p)) :
    displayMembers members = members.map shownMember := by
  induction members with
  | nil => rfl
  | cons m ms ih => rw [displayMembers, ih, List.map_cons, shownMember]

/-- What is shown of a document is made of words, quoted texts, and brackets around labelled parts. -/
theorem display_formed (t : Document p) : t.display.Formed := by
  induction t using Tree.induct with
  | null => exact .word (by decide)
  | bool b =>
    refine formed_wrapped (by decide) ?_
    cases b with
    | false => exact .word (by decide)
    | true => exact .word (by decide)
  | str s => exact formed_wrapped (by decide) (.quoted s)
  | num n => exact formed_wrapped (by decide) (formed_wrapped (by decide) (.quoted n.text))
  | arr items ih =>
    rw [display, displayItems_eq_map]
    refine formed_wrapped (by decide) (formed_wrapped (by decide)
      (.group (.bare (by decide)) (by decide) ?_ ?_))
    · intro part hpart
      obtain ⟨t, -, rfl⟩ := List.mem_map.1 hpart
      exact .absent
    · intro part hpart
      obtain ⟨t, ht, rfl⟩ := List.mem_map.1 hpart
      exact ih t ht
  | obj members ih =>
    rw [display, displayMembers_eq_map]
    refine formed_wrapped (by decide) (formed_wrapped (by decide)
      (.group (.bare (by decide)) (by decide) ?_ ?_))
    · intro part hpart
      obtain ⟨m, -, rfl⟩ := List.mem_map.1 hpart
      exact .key m.1
    · intro part hpart
      obtain ⟨m, hm, rfl⟩ := List.mem_map.1 hpart
      exact ih m hm

/-! ## Tokens -/

theorem tokens_display_null (rest : List Lexeme) :
    (display (.null : Document p)).tokens rest = .word "Null".toList :: rest :=
  tokens_text_word (by decide) rest

theorem tokens_display_bool (b : Bool) (rest : List Lexeme) :
    (display (.bool b : Document p)).tokens rest = .word "Boolean".toList :: .mark '(' ::
      .word (if b then "true".toList else "false".toList) :: .mark ')' :: rest := by
  rw [display, tokens_wrapped (by decide)]
  cases b with
  | false => exact congrArg _ (congrArg _ (tokens_text_word (by decide) _))
  | true => exact congrArg _ (congrArg _ (tokens_text_word (by decide) _))

theorem tokens_display_str (s : String) (rest : List Lexeme) :
    (display (.str s : Document p)).tokens rest = .word "String".toList :: .mark '(' ::
      .quoted (Text.escapeAll '"' s.toList) :: .mark ')' :: rest := by
  rw [display, tokens_wrapped (by decide), tokens_text_quoted]

theorem tokens_display_num (n : Number p) (rest : List Lexeme) :
    (display (.num n : Document p)).tokens rest = .word "Number".toList :: .mark '(' ::
      .word "JNumber".toList :: .mark '(' :: .quoted (Text.escapeAll '"' n.text.toList) ::
      .mark ')' :: .mark ')' :: rest := by
  rw [display, tokens_wrapped (by decide), tokens_wrapped (by decide),
    tokens_text_quoted]

theorem tokens_display_arr (items : List (Document p)) (rest : List Lexeme) :
    (display (.arr items)).tokens rest = .word "Array".toList :: .mark '(' ::
      .word "JArray".toList :: .mark '(' :: .mark '[' ::
      partTokens (items.map shownItem) (.mark ']' :: .mark ')' :: .mark ')' :: rest) := by
  rw [display, displayItems_eq_map, tokens_wrapped (by decide),
    tokens_wrapped (by decide), tokens_group (by decide)]
  rfl

theorem tokens_display_obj (members : List (String × Document p)) (rest : List Lexeme) :
    (display (.obj members)).tokens rest = .word "Object".toList :: .mark '(' ::
      .word "JObject".toList :: .mark '(' :: .mark '\x7b' ::
      partTokens (members.map shownMember) (.mark '\x7d' :: .mark ')' :: .mark ')' :: rest) := by
  rw [display, displayMembers_eq_map, tokens_wrapped (by decide),
    tokens_wrapped (by decide), tokens_group (by decide)]
  rfl

/-- An item brings no tokens but its own. -/
theorem labelledTokens_item (t : Document p) (rest : List Lexeme) :
    labelledTokens (shownItem t) rest = t.display.tokens rest := rfl

/-- A member brings its key and a colon before the tokens of its value. -/
theorem labelledTokens_member (m : String × Document p) (rest : List Lexeme) :
    labelledTokens (shownMember m) rest
      = .quoted (Text.escapeAll '"' m.1.toList) :: .mark ':' :: m.2.display.tokens rest := by
  rw [labelledTokens, shownMember, tokens_quoted]
  rfl

/-- The tokens of a document start with the word for its kind. -/
theorem exists_tokens_display (t : Document p) (rest : List Lexeme) :
    ∃ body, t.display.tokens rest = .word t.kind.shownName.toList :: body := by
  cases t with
  | null => exact ⟨_, tokens_display_null rest⟩
  | bool b => exact ⟨_, tokens_display_bool b rest⟩
  | str s => exact ⟨_, tokens_display_str s rest⟩
  | num n => exact ⟨_, tokens_display_num n rest⟩
  | arr items => exact ⟨_, tokens_display_arr items rest⟩
  | obj members => exact ⟨_, tokens_display_obj members rest⟩

/-- The first token tells the kind. -/
theorem kind_eq_of_tokens {t u : Document p} {rest rest' : List Lexeme}
    (h : t.display.tokens rest = u.display.tokens rest') : t.kind = u.kind := by
  obtain ⟨body, ht⟩ := exists_tokens_display t rest
  obtain ⟨body', hu⟩ := exists_tokens_display u rest'
  rw [ht, hu] at h
  exact Kind.shownName_inj (Lexeme.word.inj (List.cons.inj h).1)

/-- A quoted token tells the text that it was escaped from. -/
theorem text_eq_of_quoted {s s' : String}
    (h : Text.escapeAll '"' s.toList = Text.escapeAll '"' s'.toList) : s = s' :=
  String.toList_inj.1 (Text.escapeAll_inj (.inl rfl) h)

/-- The words for the two truth values differ. -/
theorem bool_eq_of_word {b b' : Bool}
    (h : (if b then "true".toList else "false".toList)
      = if b' then "true".toList else "false".toList) : b = b' := by
  cases b with
  | false =>
    cases b' with
    | false => rfl
    | true => cases h
  | true =>
    cases b' with
    | false => cases h
    | true => rfl

/-- No item starts with a bracket. -/
theorem labelledTokens_item_ne (t : Document p) (c : Char) (rest rest' : List Lexeme) :
    labelledTokens (shownItem t) rest ≠ .mark c :: rest' := by
  obtain ⟨body, hbody⟩ := exists_tokens_display t rest
  rw [labelledTokens_item, hbody]
  nofun

/-- No member starts with a bracket. -/
theorem labelledTokens_member_ne (m : String × Document p) (c : Char) (rest rest' : List Lexeme) :
    labelledTokens (shownMember m) rest ≠ .mark c :: rest' := by
  rw [labelledTokens_member]
  nofun

/-- A member is determined by its tokens, if its value is. -/
theorem labelledTokens_member_inj {m : String × Document p}
    (value : ∀ u rest rest', m.2.display.tokens rest = u.display.tokens rest' →
      m.2 = u ∧ rest = rest')
    (m' : String × Document p) (rest rest' : List Lexeme)
    (h : labelledTokens (shownMember m) rest = labelledTokens (shownMember m') rest') :
    m = m' ∧ rest = rest' := by
  simp only [labelledTokens_member, List.cons.injEq, true_and, Lexeme.quoted.injEq] at h
  obtain ⟨hvalue, hrest⟩ := value _ _ _ h.2
  exact ⟨Prod.ext (text_eq_of_quoted h.1) hvalue, hrest⟩

/-- A document and what follows it are determined by their tokens. What follows is arbitrary, since a
part stands before a comma as well as before a closing bracket. -/
theorem tokens_display_inj (t : Document p) : ∀ u rest rest',
    t.display.tokens rest = u.display.tokens rest' → t = u ∧ rest = rest' := by
  induction t using Tree.induct with
  | null =>
    intro u rest rest' h
    have hkind := kind_eq_of_tokens h
    cases u with
    | null =>
      rw [tokens_display_null, tokens_display_null] at h
      exact ⟨rfl, (List.cons.inj h).2⟩
    | _ => cases hkind
  | bool b =>
    intro u rest rest' h
    have hkind := kind_eq_of_tokens h
    cases u with
    | bool b' =>
      simp only [tokens_display_bool, List.cons.injEq, true_and, Lexeme.word.injEq] at h
      exact ⟨congrArg _ (bool_eq_of_word h.1), h.2⟩
    | _ => cases hkind
  | str s =>
    intro u rest rest' h
    have hkind := kind_eq_of_tokens h
    cases u with
    | str s' =>
      simp only [tokens_display_str, List.cons.injEq, true_and, Lexeme.quoted.injEq] at h
      exact ⟨congrArg _ (text_eq_of_quoted h.1), h.2⟩
    | _ => cases hkind
  | num n =>
    intro u rest rest' h
    have hkind := kind_eq_of_tokens h
    cases u with
    | num n' =>
      simp only [tokens_display_num, List.cons.injEq, true_and, Lexeme.quoted.injEq] at h
      have htext : n.text = n'.text := text_eq_of_quoted h.1
      exact ⟨congrArg _ (congrArg Number.mk htext), h.2⟩
    | _ => cases hkind
  | arr items ih =>
    intro u rest rest' h
    have hkind := kind_eq_of_tokens h
    cases u with
    | arr items' =>
      simp only [tokens_display_arr, List.cons.injEq, true_and] at h
      -- no item begins like the bracket that closes the list, so both lists end at the same place
      obtain ⟨rfl, hrest⟩ :=
        partTokens_inj (by decide) (fun t => labelledTokens_item_ne t ']') ih h
      simp only [List.cons.injEq, true_and] at hrest
      exact ⟨rfl, hrest⟩
    | _ => cases hkind
  | obj members ih =>
    intro u rest rest' h
    have hkind := kind_eq_of_tokens h
    cases u with
    | obj members' =>
      simp only [tokens_display_obj, List.cons.injEq, true_and] at h
      -- as for the items, with the key in front of each value
      obtain ⟨rfl, hrest⟩ := partTokens_inj (by decide)
        (fun m => labelledTokens_member_ne m '\x7d')
        (fun m hm => labelledTokens_member_inj (ih m hm)) h
      simp only [List.cons.injEq, true_and] at hrest
      exact ⟨rfl, hrest⟩
    | _ => cases hkind

/-! ## Payloads -/

mutual

/-- The texts that a document holds in document order: strings, texts of numbers, and keys. -/
def payloads : Document p → List String
  | .str s => [s]
  | .num n => [n.text]
  | .arr items => itemPayloads items
  | .obj members => memberPayloads members
  | _ => []

/-- The texts that items hold. -/
def itemPayloads : List (Document p) → List String
  | [] => []
  | t :: ts => payloads t ++ itemPayloads ts

/-- The texts that members hold, each behind its key. -/
def memberPayloads : List (String × Document p) → List String
  | [] => []
  | (k, t) :: ms => k :: (payloads t ++ memberPayloads ms)

end

/-- The texts of items, one item after the other. -/
theorem itemPayloads_eq_flatMap (items : List (Document p)) :
    itemPayloads items = items.flatMap payloads := by
  induction items with
  | nil => rfl
  | cons t ts ih => rw [itemPayloads, ih, List.flatMap_cons]

/-- The texts of members, each key before the texts of its value. -/
theorem memberPayloads_eq_flatMap (members : List (String × Document p)) :
    memberPayloads members = members.flatMap fun m => m.1 :: payloads m.2 := by
  induction members with
  | nil => rfl
  | cons m ms ih => rw [memberPayloads, ih, List.flatMap_cons, List.cons_append]

/-- The quoted tokens of a document are its payloads. -/
theorem quoted_tokens_display (t : Document p) (rest : List Lexeme) :
    (t.display.tokens rest).filterMap Lexeme.quoted?
      = (t.payloads.map fun s => Text.escapeAll '"' s.toList)
        ++ rest.filterMap Lexeme.quoted? := by
  induction t using Tree.induct generalizing rest with
  | null =>
    rw [tokens_display_null]
    rfl
  | bool b =>
    rw [tokens_display_bool]
    rfl
  | str s =>
    rw [tokens_display_str]
    rfl
  | num n =>
    rw [tokens_display_num]
    rfl
  | arr items ih =>
    rw [tokens_display_arr, payloads, itemPayloads_eq_flatMap, List.map_flatMap]
    show (partTokens _ _).filterMap _ = _
    rw [quoted_partTokens ih]
    rfl
  | obj members ih =>
    -- a member adds its key in front of what its value shows
    have inner : ∀ m ∈ members, ∀ rest,
        (labelledTokens (shownMember m) rest).filterMap Lexeme.quoted?
          = ((m.1 :: payloads m.2).map fun s => Text.escapeAll '"' s.toList)
            ++ rest.filterMap Lexeme.quoted? := by
      intro m hm rest
      rw [labelledTokens_member]
      show _ :: ((display m.2).tokens rest).filterMap _ = _
      rw [ih m hm]
      rfl
    rw [tokens_display_obj, payloads, memberPayloads_eq_flatMap, List.map_flatMap]
    show (partTokens _ _).filterMap _ = _
    rw [quoted_partTokens inner]
    rfl

/-! ## Both texts -/

/-- The text on one line has the tokens of the document. -/
theorem tokens_compactDebug (t : Document p) :
    DebugText.tokens t.compactDebug.toList = t.display.tokens [] := by
  unfold compactDebug
  rw [String.toList_ofList]
  exact t.display_formed.tokens_compact [] stops_nil

/-- The text over several lines has the tokens of the document, once its layout is removed. -/
theorem tokens_prettyDebug (t : Document p) :
    DebugText.tokens (withoutLayout .outside t.prettyDebug.toList) = t.display.tokens [] := by
  unfold prettyDebug
  rw [String.toList_ofList]
  exact t.display_formed.tokens_pretty 0 [] stops_nil

/-- Between the quotes of a debug text stand the payloads, and nothing else. -/
theorem quotes_prettyDebug (t : Document p) :
    quotes .outside t.prettyDebug.toList
      = t.payloads.map fun s => Text.escapeAll '"' s.toList := by
  rw [← quotes_withoutLayout, ← quoted_tokens, tokens_prettyDebug, quoted_tokens_display]
  exact List.append_nil _

/-- Debug text is unambiguous. Two documents with one text, on one line or over several, are the same
document, whatever texts they hold, members in order included. The text on one line has no line break
at all. Over several lines the stretches between quotes hold the texts of the document, in order, and
no line break stands in them; without the layout outside of them, the tokens are those of the text on
one line, and of no other document. -/
theorem debug_unambiguous (t u : Document p) :
    (t.compactDebug = u.compactDebug ↔ t = u) ∧
      (t.prettyDebug = u.prettyDebug ↔ t = u) ∧
      (∀ c ∈ t.compactDebug.toList, ¬ Text.IsLineBreak c) ∧
      (quotes .outside t.prettyDebug.toList
          = t.payloads.map (fun s => Text.escapeAll '"' s.toList) ∧
        ∀ inside ∈ quotes .outside t.prettyDebug.toList, ∀ c ∈ inside, ¬ Text.IsLineBreak c) ∧
      (DebugText.tokens (withoutLayout .outside t.prettyDebug.toList)
        = DebugText.tokens u.compactDebug.toList ↔ t = u) := by
  refine ⟨⟨fun h => ?_, congrArg _⟩, ⟨fun h => ?_, congrArg _⟩, ?_, ⟨t.quotes_prettyDebug, ?_⟩, ?_⟩
  · have htokens : t.display.tokens [] = u.display.tokens [] := by
      rw [← tokens_compactDebug, ← tokens_compactDebug, h]
    exact (tokens_display_inj t u [] [] htokens).1
  · have htokens : t.display.tokens [] = u.display.tokens [] := by
      rw [← tokens_prettyDebug, ← tokens_prettyDebug, h]
    exact (tokens_display_inj t u [] [] htokens).1
  · unfold compactDebug
    rw [String.toList_ofList]
    exact t.display_formed.oneLine_compact [] nofun
  · intro inside hinside
    rw [quotes_prettyDebug] at hinside
    obtain ⟨s, -, rfl⟩ := List.mem_map.1 hinside
    exact oneLine_of_shown (Text.shown_escapeAll (.inl rfl) s.toList)
  · rw [tokens_prettyDebug, tokens_compactDebug]
    exact ⟨fun h => (tokens_display_inj t u [] [] h).1, fun h => h ▸ rfl⟩

/-- One string, in which the text between two strings is imitated. -/
def forged : Document .unchecked := .obj [("k\n", .arr [.str "a\"), String(\"b"])]

/-- Two strings. -/
def listed : Document .unchecked := .obj [("k\n", .arr [.str "a", .str "b"])]

/-- A string that imitates the end of one string and the start of the next does not pass for two
strings, and a line break in a key is shown as two characters. -/
theorem debug_unambiguous_forged :
    (forged ≠ listed ∧ forged.compactDebug ≠ listed.compactDebug ∧
        forged.prettyDebug ≠ listed.prettyDebug) ∧
      forged.compactDebug
        = "Object(JObject(\x7b\"k\\n\": Array(JArray([String(\"a\\\"), String(\\\"b\")]))\x7d))" ∧
      ('n' ∈ forged.compactDebug.toList ∧ ¬ Text.IsLineBreak 'n') ∧
      (['k', '\\', 'n'] ∈ quotes .outside forged.prettyDebug.toList ∧ ¬ Text.IsLineBreak 'n') ∧
      DebugText.tokens (withoutLayout .outside forged.prettyDebug.toList)
        ≠ DebugText.tokens listed.compactDebug.toList := by
  have hne : forged ≠ listed := by simp [forged, listed]
  obtain ⟨hcompact, hpretty, hline, ⟨-, hinside⟩, htokens⟩ := debug_unambiguous forged listed
  have hmem : 'n' ∈ forged.compactDebug.toList := by decide +kernel
  have hkey : ['k', '\\', 'n'] ∈ quotes .outside forged.prettyDebug.toList := by
    rw [quotes_prettyDebug]
    decide +kernel
  exact ⟨⟨hne, fun h => hne (hcompact.1 h), fun h => hne (hpretty.1 h)⟩, by decide +kernel,
    ⟨hmem, hline 'n' hmem⟩, ⟨hkey, hinside _ hkey 'n' (by decide)⟩,
    fun h => hne (htokens.1 h)⟩

end Document

end JsonTree
