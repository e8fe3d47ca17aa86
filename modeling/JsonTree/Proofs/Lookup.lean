import JsonTree.Proofs.PolicyChange
import JsonTree.Proofs.TextRoundTrip

/-!
# Lookup in converted trees

A path of keys and indices leads through a converted tree as through the tree before it, and what it
finds there is the conversion of what it finds here. One step is carried by two facts: gathering
members that have distinct keys leaves every lookup as it is, and what stands in the place of a
number has nothing below it. A path is an induction over its steps.

- `Members.KeepsLookup`, `Tree.Leaf`: the two facts.
- `Tree.step_rebuild`: one step through a rebuilt tree.
- `Tree.Inherited.at`: what holds of a tree and of what one step finds in it holds of what a path finds.
- `Tree.at_rebuild`: a path through a rebuilt tree.
- `Document.lookup_commutes`: paths through the datum of a document, through a document under another
  policy, and through the document of a datum.
-/

namespace JsonTree

namespace Members

variable {α : Type}

/-- Gathering members that have distinct keys leaves every lookup as it is. -/
def KeepsLookup (gather : List (String × α) → List (String × α)) : Prop :=
  ∀ ms, (keys ms).Nodup → ∀ key, (gather ms).lookup key = ms.lookup key

/-- Members that are left as they are keep their lookup. -/
theorem keepsLookup_id : KeepsLookup (@id (List (String × α))) := fun _ _ _ => rfl

end Members

namespace Tree

variable {ν μ : Type}

/-! ## One step -/

/-- No step leads further down. -/
def Leaf (t : Tree ν) : Prop := ∀ s, t.step? s = none

/-- Null has no parts. -/
theorem leaf_null : Leaf (.null : Tree ν) := fun s => by cases s <;> rfl

/-- A number has no parts. -/
theorem leaf_num (n : ν) : Leaf (.num n) := fun s => by cases s <;> rfl

/-- One step leads through a rebuilt tree as through the tree before. -/
theorem step_rebuild {gather : List (String × Tree μ) → List (String × Tree μ)} {g : ν → Tree μ}
    (hgather : Members.KeepsLookup gather) (hg : ∀ n, (g n).Leaf) {t : Tree ν} (h : t.Keyed)
    (s : PathStep) : (rebuild gather g t).step? s = (t.step? s).map (rebuild gather g) := by
  cases t with
  | num n =>
    rw [leaf_num n s]
    exact hg n s
  | arr items =>
    rw [rebuild_arr]
    cases s with
    | key k => rfl
    | index i => exact List.getElem?_map
  | obj members =>
    rw [rebuild_obj]
    cases s with
    | key k =>
      have hkeys : (Members.keys (members.map fun m => (m.1, rebuild gather g m.2))).Nodup := by
        rw [keys_map_rebuild]
        exact h.1
      exact (hgather _ hkeys k).trans (Members.lookup_map_snd ..)
    | index i => rfl
  | _ => cases s <;> rfl

/-! ## Whole paths -/

/-- A path is followed one step at a time, and is lost with the first step that fails. -/
theorem at_cons (t : Tree ν) (s : PathStep) (path : List PathStep) :
    t.at? (s :: path) = (t.step? s).bind (·.at? path) := List.foldlM_cons ..

/-- What holds of a tree holds of what a path finds in it. -/
theorem Inherited.at {P : Tree ν → Prop} (hP : Inherited P) {t u : Tree ν} (ht : P t)
    {path : List PathStep} (hu : t.at? path = some u) : P u := by
  induction path generalizing t with
  | nil =>
    obtain rfl := Option.some.inj hu
    exact ht
  | cons s path ih =>
    rw [at_cons, Option.bind_eq_some_iff] at hu
    obtain ⟨v, hv, hu⟩ := hu
    exact ih (hP t s v ht hv) hu

/-- A path leads through a rebuilt tree as through the tree before. -/
theorem at_rebuild {gather : List (String × Tree μ) → List (String × Tree μ)} {g : ν → Tree μ}
    (hgather : Members.KeepsLookup gather) (hg : ∀ n, (g n).Leaf) {t : Tree ν} (h : t.Keyed)
    (path : List PathStep) :
    (rebuild gather g t).at? path = (t.at? path).map (rebuild gather g) := by
  induction path generalizing t with
  | nil => rfl
  | cons s path ih =>
    rw [at_cons, at_cons, step_rebuild hgather hg h]
    cases hs : t.step? s with
    | none => rfl
    | some u => exact ih (inherited_keyed t s u h hs)

end Tree

/-! ## Paths through converted documents -/

/-- A number becomes a number or null, so no path leads into its datum. -/
theorem Number.leaf_datum {p : Policy} (n : Number p) : n.datum.Leaf := by
  unfold datum
  cases n.reading.machine? with
  | some m => exact Tree.leaf_num m
  | none => exact Tree.leaf_null

namespace Document

open JsonTree.Tree

variable {p q : Policy}

/-- Whatever a path finds, it finds the datum of it in the datum. -/
theorem at_toDatum {t : Document p} (h : t.Keyed) (path : List PathStep) :
    t.toDatum.value.at? path = (t.at? path).map fun s : Document p => s.toDatum.value := by
  rw [toDatum_value_keyed h, at_rebuild Members.keepsLookup_id Number.leaf_datum h]
  exact Option.map_congr fun s hs => (toDatum_value_keyed (inherited_keyed.at h hs)).symm

/-- If a document is converted, all that a path finds in it is. -/
theorem at_convert {t : Document p} {u : Document q} (h : t.Keyed) (hu : convert q t = .ok u)
    (path : List PathStep) : (t.at? path).map (convert q) = (u.at? path).map .ok := by
  have haccepted := (exists_convert_iff q t).1 ⟨u, hu⟩
  rw [eq_of_convert h hu, at_rebuild Members.keepsLookup_id (fun n => leaf_num (n.under q)) h,
    Option.map_map]
  refine Option.map_congr fun s hs => convert_of_accepted q (inherited_keyed.at h hs) ?_
  exact (inherited_numbers fun n => q.checkText n.text = .ok ()).at haccepted hs

/-- Whatever a path finds in a datum, it finds the document of it in the document. -/
theorem at_ofDatum {d : Datum} (h : d.Keyed) {t : Document p} (ht : ofDatum p d = .ok t)
    (path : List PathStep) : (d.at? path).map (ofDatum p) = (t.at? path).map .ok := by
  obtain rfl := Except.ok.inj (ht.symm.trans (ofDatum_keyed p h))
  rw [at_rebuild Members.keepsLookup_id (fun m => leaf_num (Number.spelled p m)) h, Option.map_map]
  exact Option.map_congr fun s hs => ofDatum_keyed p (inherited_keyed.at h hs)

/-- A path finds something in the datum of a document exactly if it finds something in the document,
and then it finds the datum of that; however the datum is made. In a document under another policy it
finds the same parts under that policy, and in the document of a datum the documents of the parts of
the datum. -/
theorem lookup_commutes (path : List PathStep) :
    (∀ (p : Policy) (t : Document p), t.Keyed →
      t.toDatum.value.at? path = (t.at? path).map (fun s : Document p => s.toDatum.value) ∧
        t.intoDatum.value.at? path = (t.at? path).map fun s : Document p => s.intoDatum.value) ∧
    (∀ (p q : Policy) (t : Document p) (u : Document q), t.Keyed → convert q t = .ok u →
      (t.at? path).map (convert q) = (u.at? path).map .ok) ∧
    ∀ (p : Policy) (d : Datum), d.Keyed → ∃ t : Document p, ofDatum p d = .ok t ∧
      (d.at? path).map (ofDatum p) = (t.at? path).map .ok := by
  refine ⟨fun p t ht => ?_, fun p q t u ht hu => at_convert ht hu path, fun p d hd => ?_⟩
  · simp only [intoDatum_eq_toDatum]
    exact ⟨at_toDatum ht path, at_toDatum ht path⟩
  · have ht := ofDatum_eq p d
    exact ⟨_, ht, at_ofDatum hd ht path⟩

/-- Values under empty and repeated keys, at several depths. -/
def branching : Document .unchecked :=
  .obj [("list", .arr [.null, .obj [("", .num ⟨"1.50"⟩), ("list", .arr [])]]), ("", .num ⟨"-0"⟩)]

theorem lookup_commutes_branching :
    branching.Keyed ∧
      branching.toDatum.value.at? [.key "list", .index 1, .key ""]
        = some (toDatum (.num ⟨"1.50"⟩ : Document .unchecked)).value ∧
      (∃ u : Document .safe, convert .safe branching = .ok u ∧
        some (convert .safe (.num ⟨"1.50"⟩ : Document .unchecked))
          = (u.at? [.key "list", .index 1, .key ""]).map .ok) ∧
      mixedDatum.Keyed ∧ ∃ t : Document .safe, ofDatum .safe mixedDatum = .ok t ∧
        (t.at? [.key "a", .key "\""]).map .ok = some (ofDatum .safe .null) ∧
        t.at? [.key "a", .index 1] = none := by
  have hkeyed : branching.Keyed := by
    simp [branching, Keyed, ItemsKeyed, MembersKeyed, Members.keys]
  have haccepted : ∀ n ∈ branching.numbers, Policy.checkText .safe n.text = .ok () := by
    decide +kernel
  obtain ⟨u, hu⟩ := (exists_convert_iff .safe branching).2 haccepted
  obtain ⟨hdatum, hconvert, -⟩ := lookup_commutes [.key "list", .index 1, .key ""]
  obtain ⟨t, ht, hfound⟩ := (lookup_commutes [.key "a", .key "\""]).2.2 .safe _ mixedDatum_keyed
  obtain ⟨t', ht', habsent⟩ := (lookup_commutes [.key "a", .index 1]).2.2 .safe _ mixedDatum_keyed
  obtain rfl := Except.ok.inj (ht.symm.trans ht')
  refine ⟨hkeyed, (hdatum _ _ hkeyed).1, ⟨u, hu, hconvert _ _ _ u hkeyed hu⟩, mixedDatum_keyed, t,
    ht, hfound.symm, ?_⟩
  exact Option.map_eq_none_iff.1 habsent.symm

end Document

end JsonTree
