import JsonTree.JsonText.Reader
import JsonTree.Proofs.BuilderRuns
import JsonTree.Proofs.DataRoundTrip
import JsonTree.Proofs.TokenLexing

/-!
# From documents to JSON text and back

The compact text of a document is read as the datum of the document, as long as its brackets nest no
deeper than the reader allows. What comes back is the document of that datum: the same strings, keys
and order, and every number respelled from its machine number.

- `Token.separated_tokens`: between two numbers of a tree there is another token.
- `Document.serialize_eq`: the tokens of a document build its datum.
- `Datum.ofJsonText_jsonText`: reading the text of a document gives its datum, or fails by depth.
- `Number.reread`: what stands in the place of a number that was written and read.
- `Document.ofDatum_toDatum`: the way through the datum, number by number.
- `Document.jsonText_round_trip`: the round trip.
-/

namespace JsonTree

open JsonTree.Tree

/-! ## The tokens of a document -/

namespace Token

variable {ν : Type} {leaf : ν → Token}

mutual

/-- Between two numbers of a tree there is another token. -/
theorem separated_tokens : ∀ (t : Tree ν) {rest : List Token}, NoNumberAhead rest →
    Separated rest → Separated (t.tokens leaf rest)
  | .null, _, _, h => h
  | .bool _, _, _, h => h
  | .str _, _, _, h => h
  | .num n, _, hahead, h => separated_cons (leaf n) hahead h
  | .arr items, rest, _, h => by
    have hahead : NoNumberAhead (.closeArray :: rest) := fun _ => by simp
    exact separated_itemTokens items hahead h
  | .obj members, rest, _, h => by
    have hahead : NoNumberAhead (.closeObject :: rest) := fun _ => by simp
    exact separated_memberTokens members hahead h

theorem separated_itemTokens : ∀ (items : List (Tree ν)) {rest : List Token},
    NoNumberAhead rest → Separated rest → Separated (itemTokens leaf items rest)
  | [], _, _, h => h
  | [t], _, hahead, h => separated_tokens t hahead h
  | t :: u :: us, _, hahead, h =>
    separated_tokens t (fun _ => by simp) (separated_itemTokens (u :: us) hahead h)

theorem separated_memberTokens : ∀ (members : List (String × Tree ν)) {rest : List Token},
    NoNumberAhead rest → Separated rest → Separated (memberTokens leaf members rest)
  | [], _, _, h => h
  | [(_, t)], _, hahead, h => separated_tokens t hahead h
  | (_, t) :: m :: ms, _, hahead, h =>
    separated_tokens t (fun _ => by simp) (separated_memberTokens (m :: ms) hahead h)

end

end Token

/-- Every number is written as one token, which stands for its datum. -/
theorem Number.scalar_token {p : Policy} (n : Number p) : Builder.Scalar n.token n.datum := by
  unfold Number.token Number.datum
  cases n.reading.machine? with
  | some m => exact .num m
  | none => exact .null

/-! ## Reading what was written -/

namespace Document

variable {p : Policy}

theorem toDatum_value (t : Document p) :
    t.toDatum.value = rebuild Members.ofSets Number.datum t :=
  value_traverse Members.ofSets Number.toDatum t

/-- Where no key is repeated, the datum is made number by number. -/
theorem toDatum_value_keyed {t : Document p} (h : t.Keyed) :
    t.toDatum.value = rebuild id Number.datum t := by
  rw [toDatum_value, rebuild_keyed (fun _ => Members.ofSets_eq_self) h]

/-- The tokens of a document build its datum. -/
theorem serialize_eq (t : Document p) : t.serialize? = some t.toDatum.value := by
  rw [toDatum_value]
  exact Datum.ofTokens_tokens Number.scalar_token t

end Document

/-- The text of a document is read as its datum, unless its brackets nest too deep. -/
theorem Datum.ofJsonText_jsonText {p : Policy} (t : Document p) :
    Datum.ofJsonText t.jsonText
      = if t.nesting ≤ nestingLimit then .ok t.toDatum.value else .error .text := by
  have hlex : Token.lex t.jsonText = ⟨Document.tokens t, true⟩ :=
    Token.lex_text (Token.separated_tokens t (fun _ => by simp) trivial)
  have hnesting : Token.nesting (Document.tokens t) = t.nesting :=
    (Token.nesting_tokens Number.scalar_token t []).trans (Nat.max_zero t.nesting)
  have hbuild : Datum.ofTokens? (Document.tokens t) = some t.toDatum.value :=
    Document.serialize_eq t
  unfold Datum.ofJsonText
  simp only [hlex, hnesting, hbuild, true_and]

/-- What is read has distinct keys and does not nest too deep. -/
theorem Datum.fits_of_ofJsonText {s : String} {d : Datum} (h : Datum.ofJsonText s = .ok d) :
    d.Keyed ∧ d.nesting ≤ nestingLimit := by
  unfold Datum.ofJsonText at h
  dsimp only at h
  split at h
  · rename_i hlimit
    split at h
    · rename_i e he
      cases h
      obtain ⟨hkeyed, hnesting⟩ := Datum.fits_of_ofTokens he
      exact ⟨hkeyed, hnesting.trans hlimit.2⟩
    · cases h
  · cases h

/-! ## The way through the datum -/

/-- What stands in the place of a number that was written and read: the number with the text of its
machine number, or null. -/
def Number.reread {p : Policy} (n : Number p) : Document p :=
  rebuild id (fun m => .num (spelled p m)) n.datum

namespace Number

variable {p : Policy}

theorem keyed_datum (n : Number p) : n.datum.Keyed := by
  unfold datum
  cases n.reading.machine? with
  | some m => trivial
  | none => trivial

/-- What is read is written as before. -/
theorem tokens_reread (n : Number p) (rest : List Token) :
    Tree.tokens Number.token n.reread rest = n.token :: rest := by
  unfold reread datum token
  cases n.reading.machine? with
  | none => rfl
  | some m =>
    show (spelled p m).token :: rest = .num m :: rest
    unfold token
    rw [reading_spelled]
    rfl

end Number

section

variable {ν μ : Type} {leaf : ν → Token} {leaf' : μ → Token} {f : ν → Tree μ}

mutual

/-- A tree is written as before if each of its numbers is. -/
theorem tokens_rebuild (hf : ∀ n rest, (f n).tokens leaf' rest = leaf n :: rest) :
    ∀ (t : Tree ν) (rest : List Token), (rebuild id f t).tokens leaf' rest = t.tokens leaf rest
  | .null, _ => rfl
  | .bool _, _ => rfl
  | .str _, _ => rfl
  | .num n, rest => hf n rest
  | .arr items, rest => by
    rw [rebuild_arr, tokens, tokens, itemTokens_rebuild hf items]
  | .obj members, rest => by
    rw [rebuild_obj, id, tokens, tokens, memberTokens_rebuild hf members]

theorem itemTokens_rebuild (hf : ∀ n rest, (f n).tokens leaf' rest = leaf n :: rest) :
    ∀ (items : List (Tree ν)) (rest : List Token),
      itemTokens leaf' (items.map (rebuild id f)) rest = itemTokens leaf items rest
  | [], _ => rfl
  | [t], rest => tokens_rebuild hf t rest
  | t :: u :: us, rest => by
    show tokens leaf' (rebuild id f t)
      (.comma :: itemTokens leaf' ((u :: us).map (rebuild id f)) rest) = _
    rw [tokens_rebuild hf t, itemTokens_rebuild hf (u :: us)]
    rfl

theorem memberTokens_rebuild (hf : ∀ n rest, (f n).tokens leaf' rest = leaf n :: rest) :
    ∀ (members : List (String × Tree ν)) (rest : List Token),
      memberTokens leaf' (members.map fun m => (m.1, rebuild id f m.2)) rest
        = memberTokens leaf members rest
  | [], _ => rfl
  | [(key, t)], rest => by
    show .str key :: .colon :: tokens leaf' (rebuild id f t) rest = _
    rw [tokens_rebuild hf t]
    rfl
  | (key, t) :: m :: ms, rest => by
    show .str key :: .colon :: tokens leaf' (rebuild id f t) (.comma ::
      memberTokens leaf' ((m :: ms).map fun m => (m.1, rebuild id f m.2)) rest) = _
    rw [tokens_rebuild hf t, memberTokens_rebuild hf (m :: ms)]
    rfl

end

end

namespace Document

variable {p : Policy}

/-- The datum of a document that repeats no key repeats none. -/
theorem keyed_toDatum {t : Document p} (h : t.Keyed) : t.toDatum.value.Keyed := by
  rw [toDatum_value_keyed h]
  exact keyed_rebuild Number.keyed_datum h

/-- The way through the datum, number by number. -/
theorem ofDatum_toDatum {t : Document p} (h : t.Keyed) :
    ofDatum p t.toDatum.value = .ok (rebuild id Number.reread t) := by
  rw [toDatum_value_keyed h, ofDatum_keyed p (keyed_rebuild Number.keyed_datum h), rebuild_rebuild]
  rfl

/-- What was written and read is written as before. -/
theorem jsonText_reread (t : Document p) :
    Document.jsonText (rebuild id Number.reread t) = t.jsonText :=
  congrArg Token.text (tokens_rebuild Number.tokens_reread t [])

/-! ## The round trip -/

theorem ofJsonText_jsonText {t : Document p} (h : t.nesting ≤ nestingLimit) :
    ofJsonText p t.jsonText = refusedAsData (ofDatum p t.toDatum.value) := by
  unfold ofJsonText
  rw [Datum.ofJsonText_jsonText, if_pos h]
  rfl

theorem ofJsonText_jsonText_of_lt {t : Document p} (h : nestingLimit < t.nesting) :
    ofJsonText p t.jsonText = .error .text := by
  unfold ofJsonText
  rw [Datum.ofJsonText_jsonText, if_neg (Nat.not_le.2 h)]
  rfl

/-- A document that was read is reproduced from its text. -/
theorem ofJsonText_jsonText_of_read {t : Document p} {s : String} (h : ofJsonText p s = .ok t) :
    ofJsonText p t.jsonText = .ok t := by
  cases hd : Datum.ofJsonText s with
  | error e =>
    unfold ofJsonText at h
    rw [hd] at h
    cases h
  | ok d =>
    obtain ⟨hkeyed, hlimit⟩ := Datum.fits_of_ofJsonText hd
    obtain ⟨u, hu⟩ : ∃ u, ofDatum p d = .ok u := ⟨_, ofDatum_keyed p hkeyed⟩
    have hdatum := (toDatum_of_ofDatum hkeyed hu).2
    -- the document that was read is the document of its datum, and so nests as deep
    have hread : ofJsonText p s = .ok u := by
      unfold ofJsonText
      rw [hd]
      show refusedAsData (ofDatum p d) = .ok u
      rw [hu]
      rfl
    obtain rfl : u = t := Except.ok.inj (hread.symm.trans h)
    have hnesting : u.nesting = d.nesting := by
      rw [ofDatum_keyed p hkeyed] at hu
      rw [← Except.ok.inj hu]
      exact nesting_rebuild (f := fun m => .num (Number.spelled p m)) (fun _ => rfl) d
    rw [ofJsonText_jsonText (hnesting.le.trans hlimit), hdatum]
    show refusedAsData (ofDatum p d) = .ok u
    rw [hu]
    rfl

/-- Writing and reading, under one policy. A document of at most 127 levels comes back as the
document of its datum; if no key is repeated, it is the same but for its numbers, and it is written
as before. A deeper document is refused, and a document that was read is reproduced. -/
theorem jsonText_round_trip (p : Policy) (t : Document p) :
    (t.nesting ≤ 127 → ∃ u, ofJsonText p t.jsonText = .ok u ∧ ofDatum p t.toDatum.value = .ok u ∧
        (t.Keyed → u = rebuild id Number.reread t ∧ u.jsonText = t.jsonText)) ∧
      (127 < t.nesting → ofJsonText p t.jsonText = .error .text) ∧
      ∀ s, ofJsonText p s = .ok t → ofJsonText p t.jsonText = .ok t := by
  refine ⟨?_, ofJsonText_jsonText_of_lt, fun s => ofJsonText_jsonText_of_read⟩
  intro hlimit
  refine ⟨_, ?_, ofDatum_eq p t.toDatum.value, ?_⟩
  · rw [ofJsonText_jsonText hlimit, ofDatum_eq]
    rfl
  · intro hkeyed
    have hreread := ofDatum_toDatum hkeyed
    rw [ofDatum_eq] at hreread
    rw [Except.ok.inj hreread]
    exact ⟨rfl, jsonText_reread t⟩

/-- Quotes, a backslash and control characters in keys and strings, and numbers that are respelled,
saturated or lost. -/
def unusual : Document .unchecked :=
  .obj [("a\"\\", .arr [.num ⟨"1.50"⟩, .num ⟨"-1e400"⟩, .num ⟨"one"⟩]),
    ("\x01", .obj [("", .str "\n\x1f/")])]

/-- Arrays around null. -/
def layers : Nat → Document p
  | 0 => .null
  | depth + 1 => .arr [layers depth]

theorem nesting_layers (depth : Nat) : (layers depth : Document p).nesting = depth := by
  induction depth with
  | zero => rfl
  | succ depth ih =>
    show max (layers depth : Document p).nesting 0 + 1 = depth + 1
    rw [ih, Nat.max_zero]

theorem jsonText_round_trip_unusual :
    (unusual.nesting ≤ 127 ∧ unusual.Keyed ∧ ∃ u, ofJsonText .unchecked unusual.jsonText = .ok u ∧
        ofDatum .unchecked unusual.toDatum.value = .ok u ∧
        u = rebuild id Number.reread unusual ∧ u.jsonText = unusual.jsonText ∧
        ofJsonText .unchecked u.jsonText = .ok u) ∧
      127 < (layers 128 : Document .safe).nesting ∧
      ofJsonText .safe (layers 128 : Document .safe).jsonText = .error .text := by
  have hnesting : unusual.nesting ≤ 127 := by decide
  have hkeyed : unusual.Keyed := by
    simp [unusual, Keyed, ItemsKeyed, MembersKeyed, Members.keys]
  obtain ⟨u, hread, hdatum, hsame⟩ := (jsonText_round_trip .unchecked unusual).1 hnesting
  have hagain := (jsonText_round_trip .unchecked u).2.2 unusual.jsonText hread
  have hdeep : 127 < (layers 128 : Document .safe).nesting := by
    rw [nesting_layers]
    decide
  exact ⟨⟨hnesting, hkeyed, u, hread, hdatum, (hsame hkeyed).1, (hsame hkeyed).2, hagain⟩, hdeep,
    (jsonText_round_trip .safe _).2.1 hdeep⟩

end Document

end JsonTree
