import JsonTree.Proofs.MachineText
import JsonTree.Proofs.Traversal

/-!
# From data to documents and back

No policy refuses a datum, and the document of a datum holds the text of each of its numbers. Both
ways back, the one that leaves the document as it is and the one that takes it apart, read the same
datum from it, in the same order and with the same kinds of numbers.

- `Document.ofDatum_eq`, `Document.toDatum_eq`: the two directions as functions on trees.
- `Document.intoDatum_eq_toDatum`: both ways back give one datum and the same records.
- `Document.toDatum_of_ofDatum`: the document of a datum has that datum.
- `Document.data_round_trip`: every datum comes back as it was.
-/

namespace JsonTree.Document

open JsonTree.Tree

variable {p : Policy}

/-- No policy refuses a datum. -/
theorem ofDatum_eq (p : Policy) (d : Datum) :
    ofDatum p d = .ok (rebuild Members.ofList (fun m => .num (Number.spelled p m)) d) := by
  show d.traverse Members.ofList _ = pure _
  apply traverse_eq_pure
  intro m _
  rw [Number.ofMachine_eq]
  rfl

/-- Where no key is repeated, the members stay as they are. -/
theorem ofDatum_keyed (p : Policy) {d : Datum} (h : d.Keyed) :
    ofDatum p d = .ok (rebuild id (fun m => .num (Number.spelled p m)) d) := by
  rw [ofDatum_eq, rebuild_keyed (fun _ => Members.ofList_eq_self) h]

/-- A document of which every number reads as a machine number loses nothing in its datum. -/
theorem toDatum_eq {t : Document p} (h : ∀ n ∈ t.numbers, ∃ m, n.reading = .number m) :
    t.toDatum = pure (rebuild Members.ofSets Number.datum t) := by
  apply traverse_eq_pure
  intro n hn
  obtain ⟨m, hm⟩ := h n hn
  rw [Number.toDatum_of_reading hm, Number.datum_of_reading hm]
  rfl

mutual

/-- Both ways back give one datum and the same records: each is one recursion over the document, with
the numbers in document order and objects gathered in the same way. -/
theorem intoDatum_eq_toDatum : ∀ t : Document p, t.intoDatum = t.toDatum
  | .null => rfl
  | .bool _ => rfl
  | .str _ => rfl
  | .num _ => rfl
  | .arr items => by
    rw [intoDatum, itemsIntoDatum_eq_traverseItems items]
    rfl
  | .obj members => by
    rw [intoDatum, membersIntoDatum_eq_traverseMembers members]
    rfl

/-- The companion on items. -/
theorem itemsIntoDatum_eq_traverseItems : ∀ items : List (Document p),
    itemsIntoDatum items = traverseItems Members.ofSets Number.toDatum items
  | [] => rfl
  | t :: ts => by
    rw [itemsIntoDatum, intoDatum_eq_toDatum t, itemsIntoDatum_eq_traverseItems ts]
    rfl

/-- The companion on members; the keys go along with the data. -/
theorem membersIntoDatum_eq_traverseMembers : ∀ members : List (String × Document p),
    membersIntoDatum members = traverseMembers Members.ofSets Number.toDatum members
  | [] => rfl
  | (k, t) :: ms => by
    rw [membersIntoDatum, intoDatum_eq_toDatum t, membersIntoDatum_eq_traverseMembers ms]
    rfl

end

/-- The number of a text is the machine number that it was spelled from. -/
theorem rebuild_datum_spelled (d : Datum) :
    rebuild id Number.datum (rebuild id (fun m => .num (Number.spelled p m)) d) = d := by
  rw [rebuild_rebuild]
  simp only [rebuild_num, Number.datum_spelled]
  exact rebuild_num_self d

/-- The document of a datum repeats no key, and its datum is that one. -/
theorem toDatum_of_ofDatum {d : Datum} (h : d.Keyed) {t : Document p} (ht : ofDatum p d = .ok t) :
    t.Keyed ∧ t.toDatum = .silent d := by
  rw [ofDatum_keyed p h] at ht
  replace ht := Except.ok.inj ht
  have hkeyed : t.Keyed := by
    rw [← ht]
    exact keyed_rebuild (f := fun m => .num (Number.spelled p m)) (fun _ => trivial) h
  have hread : ∀ n ∈ t.numbers, ∃ m, n.reading = .number m := by
    rw [← ht, numbers_rebuild, List.forall_mem_map]
    intro m _
    exact ⟨m, Number.reading_spelled m⟩
  -- on a keyed tree both gatherings change nothing
  have hback : rebuild Members.ofSets Number.datum t = d := by
    rw [rebuild_keyed (fun _ => Members.ofSets_eq_self) hkeyed, ← ht, rebuild_datum_spelled]
  refine ⟨hkeyed, ?_⟩
  rw [toDatum_eq hread, hback]
  rfl

/-- Every datum is held under every policy, and comes back as it was, with nothing to report. -/
theorem data_round_trip (p : Policy) {d : Datum} (h : d.Keyed) :
    ∃ t : Document p, ofDatum p d = .ok t ∧ t.Keyed ∧
      t.toDatum = .silent d ∧ t.intoDatum = .silent d := by
  have ht := ofDatum_keyed p h
  obtain ⟨hkeyed, hdatum⟩ := toDatum_of_ofDatum h ht
  exact ⟨_, ht, hkeyed, hdatum, (intoDatum_eq_toDatum _).trans hdatum⟩

/-- The floats -0.0, 1.0 and 1e16 and the integers at both ends, under keys and in an array. -/
def mixedDatum : Datum :=
  .obj [("b", .arr [.num (.float (.zero true)),
      .num (.float ⟨false, 0x3FF0000000000000, by decide⟩)]),
    ("a", .obj [("", .num (.float ⟨false, 0x4341C37937E08000, by decide⟩)), ("\"", .null)]),
    ("c", .arr [.num (.int ⟨-2 ^ 63, by decide, by decide⟩),
      .num (.int ⟨2 ^ 64 - 1, by decide, by decide⟩)])]

theorem mixedDatum_keyed : mixedDatum.Keyed := by
  simp [mixedDatum, Keyed, ItemsKeyed, MembersKeyed, Members.keys]

theorem data_round_trip_mixed :
    mixedDatum.Keyed ∧ ∃ t : Document .safe, ofDatum .safe mixedDatum = .ok t ∧ t.Keyed ∧
      t.toDatum = .silent mixedDatum ∧ t.intoDatum = .silent mixedDatum :=
  ⟨mixedDatum_keyed, data_round_trip .safe mixedDatum_keyed⟩

end JsonTree.Document
