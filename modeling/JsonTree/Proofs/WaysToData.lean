import JsonTree.Proofs.SafeRuns
import JsonTree.Proofs.TextRoundTrip

/-!
# All ways to data agree

The datum of a document is made by a recursion, by a loop over instructions, and by a builder that
runs through the tokens of the document; its text is made of the same tokens. All of them give one
datum, which has the shape of the document.

- `Number.StandsFor`: what stands for a number in a datum.
- `Datum.jsonText_toDatum`: a document and its datum have one text.
- `Document.corresponds_toDatum`: the datum has the shape of the document.
- `Document.ways_to_data_agree`: all of it together.
-/

namespace JsonTree

open JsonTree.Tree

/-! ## One number -/

/-- What stands for a number in a datum: the machine number of its reading; or null, but only for an
unchecked text that reads neither as an integer nor as a float. -/
inductive Number.StandsFor {p : Policy} (n : Number p) : Datum → Prop
  | number {m : MachineNumber} (h : n.reading.machine? = some m) : StandsFor n (.num m)
  | null (unchecked : p = .unchecked) (signed : n.signed? = none) (unsigned : n.unsigned? = none)
    (float : n.toBinary64 = .nonFinite .nan) : StandsFor n .null

namespace Number

variable {p : Policy}

/-- A text that is no number reads in none of the three ways. -/
theorem no_reading {n : Number p} (h : n.reading = .unreadable) :
    n.signed? = none ∧ n.unsigned? = none ∧ n.toBinary64 = .nonFinite .nan := by
  unfold reading at h
  cases hinteger : n.signed?.or n.unsigned? with
  | some i =>
    rw [hinteger] at h
    cases h
  | none =>
    rw [hinteger] at h
    obtain ⟨hsigned, hunsigned⟩ := Option.or_eq_none_iff.1 hinteger
    refine ⟨hsigned, hunsigned, ?_⟩
    match hfloat : n.toBinary64, h with
    | .nonFinite .nan, _ => rfl

/-- The datum of a sound number stands for it. -/
theorem Sound.standsFor {n : Number p} (h : n.Sound) : n.StandsFor n.datum := by
  unfold datum
  cases hmachine : n.reading.machine? with
  | some m => exact .number hmachine
  | none =>
    have hunreadable : n.reading = .unreadable := by
      cases hreading : n.reading with
      | unreadable => rfl
      | _ =>
        rw [hreading] at hmachine
        cases hmachine
    cases p with
    | safe =>
      obtain ⟨m, hm, -⟩ := h.wellBehaved.reading
      rw [hunreadable] at hm
      cases hm
    | unchecked =>
      obtain ⟨hsigned, hunsigned, hfloat⟩ := no_reading hunreadable
      exact .null rfl hsigned hunsigned hfloat

/-- The datum of a number is written as the number's token. -/
theorem tokens_datum (n : Number p) (rest : List Token) :
    Tree.tokens .num n.datum rest = n.token :: rest := by
  unfold datum token
  cases n.reading.machine? with
  | some m => rfl
  | none => rfl

end Number

/-! ## A whole document -/

namespace Document

variable {p : Policy}

/-- The datum has the shape of the document. -/
theorem corresponds_toDatum {t : Document p} (h : t.Sound) :
    Corresponds Number.StandsFor t t.toDatum.value := by
  rw [toDatum_value_keyed h.keyed]
  exact corresponds_rebuild fun n hn => (h.numbers n hn).standsFor

/-- All unchecked documents that repeat no key are sound. -/
theorem sound_of_keyed {t : Document .unchecked} (h : t.Keyed) : t.Sound := ⟨fun _ _ => rfl, h⟩

end Document

/-- A document and its datum have one text. -/
theorem Datum.jsonText_toDatum {p : Policy} {t : Document p} (h : t.Keyed) :
    Datum.jsonText t.toDatum.value = t.jsonText := by
  rw [Document.toDatum_value_keyed h]
  exact congrArg Token.text (tokens_rebuild Number.tokens_datum t [])

namespace Document

/-- The recursion, the loop and the tokens give one datum, and the loop and the recursion report the
same; the text of the document is the text of the datum. The datum repeats no key and has the shape
of the document: scalars, lengths, keys and orders are kept, and a number stands for each number, or
null where an unchecked text has no reading. -/
theorem ways_to_data_agree {p : Policy} {t : Document p} (h : t.Sound) :
    t.intoDatum = t.toDatum ∧ t.serialize? = some t.toDatum.value ∧
      t.jsonText = Datum.jsonText t.toDatum.value ∧
      t.toDatum.value.Keyed ∧ Corresponds Number.StandsFor t t.toDatum.value := by
  exact ⟨intoDatum_eq_toDatum t, serialize_eq t, (Datum.jsonText_toDatum h.keyed).symm,
    keyed_toDatum h.keyed, corresponds_toDatum h⟩

/-- Integers and floats in several spellings, a magnitude that saturates, and a text that is no
number, under keys and in arrays. -/
def everyReading : Document .unchecked :=
  .obj [("z", .arr [.num ⟨"007"⟩, .num ⟨"-0"⟩, .num ⟨"1E2"⟩, .num ⟨"18446744073709551616"⟩]),
    ("a", .obj [("", .num ⟨"-1e400"⟩), ("y", .arr [.num ⟨"one"⟩, .null])])]

theorem ways_to_data_agree_everyReading :
    everyReading.Sound ∧ everyReading.intoDatum = everyReading.toDatum ∧
      everyReading.serialize? = some everyReading.toDatum.value ∧
      everyReading.jsonText = Datum.jsonText everyReading.toDatum.value ∧
      everyReading.toDatum.value.Keyed ∧
      Corresponds Number.StandsFor everyReading everyReading.toDatum.value := by
  have hsound : everyReading.Sound := by
    apply sound_of_keyed
    simp [everyReading, Keyed, ItemsKeyed, MembersKeyed, Members.keys]
  exact ⟨hsound, ways_to_data_agree hsound⟩

end Document

end JsonTree
