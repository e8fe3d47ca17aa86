import JsonTree.Proofs.Rearrangement

/-!
# Hashing in agreement with equality

What a tree feeds to a hasher does not depend on the order of members: an object feeds the sum of
the digests of its members, and a sum does not depend on the order of what is added. So equal
documents leave every hasher in one state, and buckets of equal hash hold whatever may be equal.

- `Hasher`: how a state takes in words, and the hash of a state.
- `Tree.hashWords_sorted`: a tree feeds what it feeds with its members sorted.
- `Tree.Buckets.Represent`: what the buckets hold of the trees met so far; `Tree.Buckets.add_spec`:
  one more tree, and the index of its first equal.
- `Tree.firstIndices_eq`: a whole list through buckets, in agreement with a linear search.
- `Document.equal_feeds_equal`: the agreement, for every hasher and every digest of a member.
-/

namespace JsonTree

/-- A hasher: how its state takes in a word, and the hash that is read off a state. -/
structure Hasher (σ : Type) where
  feed : σ → HashWord → σ
  finish : σ → UInt64

/-- The state after words, one after the other. -/
def Hasher.feedAll {σ : Type} (h : Hasher σ) (s : σ) (ws : List HashWord) : σ := ws.foldl h.feed s

namespace Tree

variable {ν : Type}

/-! ## What a tree feeds -/

section

variable (digest : List HashWord → UInt64) (text : ν → String)

theorem itemsHashWords_eq_flatMap (items : List (Tree ν)) :
    itemsHashWords digest text items = items.flatMap (hashWords digest text) := by
  induction items with
  | nil => rfl
  | cons t ts ih => rw [itemsHashWords, ih, List.flatMap_cons]

/-- Digests are added in any order; the sum may wrap around. -/
theorem membersDigest_perm {ms ns : List (String × Tree ν)} (h : ms.Perm ns) :
    membersDigest digest text ms = membersDigest digest text ns := by
  induction h with
  | nil => rfl
  | cons m _ ih => rw [membersDigest, membersDigest, ih]
  | swap m n ms =>
    rw [membersDigest, membersDigest, membersDigest, membersDigest, ← UInt64.add_assoc,
      ← UInt64.add_assoc, UInt64.add_comm (digest _)]
  | trans _ _ ih ih' => exact ih.trans ih'

theorem membersDigest_map {f : Tree ν → Tree ν} {ms : List (String × Tree ν)}
    (h : ∀ m ∈ ms, hashWords digest text (f m.2) = hashWords digest text m.2) :
    membersDigest digest text (ms.map fun m => (m.1, f m.2)) = membersDigest digest text ms := by
  induction ms with
  | nil => rfl
  | cons m ms ih =>
    rw [List.forall_mem_cons] at h
    rw [List.map_cons, membersDigest, membersDigest, h.1, ih h.2]

/-- Sorting the members of objects changes nothing in what a tree feeds. -/
theorem hashWords_sorted (t : Tree ν) :
    hashWords digest text t.sorted = hashWords digest text t := by
  induction t with
  | null => rfl
  | bool b => rfl
  | str s => rfl
  | num n => rfl
  | arr items ih =>
    rw [sorted_arr, hashWords, hashWords, itemsHashWords_eq_flatMap, itemsHashWords_eq_flatMap,
      List.length_map, List.flatMap_map, List.flatMap_def, List.flatMap_def,
      List.map_congr_left ih]
  | obj members ih =>
    have hperm := Members.sort_perm (members.map fun m => (m.1, m.2.sorted))
    rw [sorted_obj, hashWords, hashWords, membersDigest_perm digest text hperm,
      membersDigest_map digest text ih, hperm.length_eq, List.length_map]

end

/-! ## Finding equal trees through buckets -/

section

variable {eq : ν → ν → Bool} {hashOf : Tree ν → UInt64} {seen : List (Tree ν)} {t : Tree ν}

namespace Buckets

variable {buckets : Buckets ν}

theorem add_of_found {e : Tree ν × Nat} {index : Nat}
    (h : (buckets.getD (hashOf t) []).find? (fun e => eqBy eq t e.1) = some e) :
    buckets.add eq hashOf t index = (buckets, e.2) := by
  unfold add
  dsimp only
  rw [h]

theorem add_of_new {index : Nat}
    (h : (buckets.getD (hashOf t) []).find? (fun e => eqBy eq t e.1) = none) :
    buckets.add eq hashOf t index =
      (buckets.insert (hashOf t) (buckets.getD (hashOf t) [] ++ [(t, index)]), index) := by
  unfold add
  dsimp only
  rw [h]

/-- An entry put at the end of a bucket leaves the other entries where they are. -/
theorem mem_insert_iff (buckets : Buckets ν) (h h' : UInt64) (e e' : Tree ν × Nat) :
    e' ∈ (buckets.insert h (buckets.getD h [] ++ [e])).getD h' [] ↔
      e' ∈ buckets.getD h' [] ∨ h' = h ∧ e' = e := by
  rw [Std.HashMap.getD_insert]
  by_cases hh : h = h'
  · subst hh
    simp
  · have hh' : ¬ h' = h := fun e => hh e.symm
    simp [hh, hh']

/-- The buckets stand for the trees met so far: each entry is one of them with the index of its first
equal, and each of them has an equal in the bucket of its hash. -/
structure Represent (eq : ν → ν → Bool) (hashOf : Tree ν → UInt64) (buckets : Buckets ν)
    (seen : List (Tree ν)) : Prop where
  entry : ∀ h, ∀ e ∈ buckets.getD h [],
    e.1 ∈ seen ∧ seen.findIdx? (eqBy eq e.1) = some e.2
  found : ∀ u ∈ seen, ∃ e ∈ buckets.getD (hashOf u) [], eqBy eq u e.1 = true

namespace Represent

theorem empty : Represent eq hashOf (∅ : Buckets ν) [] := by
  refine ⟨fun h e he => ?_, List.forall_mem_nil _⟩
  rw [Std.HashMap.getD_empty] at he
  cases he

/-- An entry stays an entry when further trees are met. -/
theorem entry_append (h : Represent eq hashOf buckets seen) (us : List (Tree ν)) {k : UInt64}
    {e : Tree ν × Nat} (he : e ∈ buckets.getD k []) :
    e.1 ∈ seen ++ us ∧ (seen ++ us).findIdx? (eqBy eq e.1) = some e.2 := by
  obtain ⟨hseen, hfirst⟩ := h.entry k e he
  rw [List.findIdx?_append, hfirst]
  exact ⟨List.mem_append_left us hseen, rfl⟩

/-- A tree with an equal in its bucket needs no entry. -/
theorem append (h : Represent eq hashOf buckets seen) {e : Tree ν × Nat}
    (he : e ∈ buckets.getD (hashOf t) []) (hequal : eqBy eq t e.1 = true) :
    Represent eq hashOf buckets (seen ++ [t]) := by
  refine ⟨fun k e' he' => h.entry_append [t] he', ?_⟩
  rw [List.forall_mem_append, List.forall_mem_singleton]
  exact ⟨h.found, e, he, hequal⟩

/-- A tree that is its own first equal gets an entry. -/
theorem insert (h : Represent eq hashOf buckets seen) (hself : eqBy eq t t = true)
    (hfirst : (seen ++ [t]).findIdx? (eqBy eq t) = some seen.length) :
    Represent eq hashOf
      (buckets.insert (hashOf t) (buckets.getD (hashOf t) [] ++ [(t, seen.length)]))
      (seen ++ [t]) := by
  refine ⟨fun k e he => ?_, ?_⟩
  · rcases (mem_insert_iff ..).1 he with he | ⟨-, rfl⟩
    · exact h.entry_append [t] he
    · exact ⟨List.mem_append_right _ (List.mem_singleton_self t), hfirst⟩
  · rw [List.forall_mem_append, List.forall_mem_singleton]
    refine ⟨fun u hu => ?_, (t, seen.length), (mem_insert_iff ..).2 (.inr ⟨rfl, rfl⟩), hself⟩
    obtain ⟨e, he, hue⟩ := h.found u hu
    exact ⟨e, (mem_insert_iff ..).2 (.inl he), hue⟩

end Represent

end Buckets

/-- A tree is found from where its equals are found. -/
theorem findIdx_eqBy_congr {u : Tree ν} {us : List (Tree ν)}
    (h : ∀ v ∈ us, eqBy eq t v = eqBy eq u v) :
    us.findIdx? (eqBy eq t) = us.findIdx? (eqBy eq u) := by
  induction us with
  | nil => rfl
  | cons v us ih =>
    rw [List.forall_mem_cons] at h
    rw [List.findIdx?_cons, List.findIdx?_cons, h.1, ih h.2]

variable (heq : ∀ m n, eq m n = true ↔ m = n) (hhash : ∀ t, hashOf t.sorted = hashOf t)

include heq

/-- An equal of an entry is first found where the entry is. -/
theorem Buckets.Represent.findIdx_of_equal {buckets : Buckets ν}
    (h : Represent eq hashOf buckets seen) (hseen : ∀ u ∈ seen, u.Keyed) (ht : t.Keyed)
    {k : UInt64} {e : Tree ν × Nat} (he : e ∈ buckets.getD k []) (hequal : eqBy eq t e.1 = true) :
    seen.findIdx? (eqBy eq t) = some e.2 := by
  obtain ⟨heseen, hfirst⟩ := h.entry k e he
  have hekeyed := hseen e.1 heseen
  have hsorted : t.sorted = e.1.sorted := (eqBy_iff_sorted heq ht hekeyed).1 hequal
  rw [← hfirst]
  apply findIdx_eqBy_congr
  intro v hv
  rw [Bool.eq_iff_iff, eqBy_iff_sorted heq ht (hseen v hv),
    eqBy_iff_sorted heq hekeyed (hseen v hv), hsorted]

include hhash

/-- A tree that has no equal in its bucket has none among the trees met so far. -/
theorem Buckets.Represent.not_met {buckets : Buckets ν} (h : Represent eq hashOf buckets seen)
    (hseen : ∀ u ∈ seen, u.Keyed) (ht : t.Keyed)
    (hnew : ∀ e ∈ buckets.getD (hashOf t) [], ¬ eqBy eq t e.1 = true) :
    ∀ u ∈ seen, eqBy eq t u = false := by
  intro u hu
  by_contra hequal
  rw [Bool.not_eq_false, eqBy_iff_sorted heq ht (hseen u hu)] at hequal
  -- the equal that `u` has in the bucket of its hash is one of `t` in the same bucket
  obtain ⟨e, he, hue⟩ := h.found u hu
  have hekeyed := hseen e.1 (h.entry _ e he).1
  have hhashes : hashOf u = hashOf t := by rw [← hhash u, ← hequal, hhash t]
  rw [eqBy_iff_sorted heq (hseen u hu) hekeyed] at hue
  exact hnew e (hhashes ▸ he) ((eqBy_iff_sorted heq ht hekeyed).2 (hequal.trans hue))

/-- One more tree: the buckets stand for it too, and what is found is the index of its first
equal. -/
theorem Buckets.add_spec {buckets : Buckets ν} (h : Represent eq hashOf buckets seen)
    (hseen : ∀ u ∈ seen, u.Keyed) (ht : t.Keyed) :
    Represent eq hashOf (buckets.add eq hashOf t seen.length).1 (seen ++ [t]) ∧
      (seen ++ [t]).findIdx? (eqBy eq t) = some (buckets.add eq hashOf t seen.length).2 := by
  cases hfind : (buckets.getD (hashOf t) []).find? fun e => eqBy eq t e.1 with
  | some e =>
    have hmem := List.mem_of_find?_eq_some hfind
    have hequal : eqBy eq t e.1 = true := by simpa using List.find?_some hfind
    rw [add_of_found hfind, List.findIdx?_append, h.findIdx_of_equal heq hseen ht hmem hequal]
    exact ⟨h.append hmem hequal, rfl⟩
  | none =>
    have hself : eqBy eq t t = true := (eqBy_iff_sorted heq ht ht).2 rfl
    have hnew := h.not_met heq hhash hseen ht (List.find?_eq_none.1 hfind)
    have hfirst : (seen ++ [t]).findIdx? (eqBy eq t) = some seen.length := by
      rw [List.findIdx?_append, List.findIdx?_eq_none_iff.2 hnew, List.findIdx?_singleton,
        if_pos hself]
      simp
    rw [add_of_new hfind]
    exact ⟨h.insert hself hfirst, hfirst⟩

/-- Going on after the trees met so far finds the first equals of the further ones. -/
theorem firstIndicesFrom_eq {ts : List (Tree ν)} {buckets : Buckets ν}
    (h : Buckets.Represent eq hashOf buckets seen) (hseen : ∀ u ∈ seen, u.Keyed)
    (hts : ∀ t ∈ ts, t.Keyed) :
    (firstIndicesFrom eq hashOf buckets seen.length ts).map some
      = ts.map fun t => (seen ++ ts).findIdx? (eqBy eq t) := by
  induction ts generalizing seen buckets with
  | nil => rfl
  | cons t ts ih =>
    rw [List.forall_mem_cons] at hts
    obtain ⟨hafter, hfirst⟩ := Buckets.add_spec heq hhash h hseen hts.1
    have hseen' : ∀ u ∈ seen ++ [t], u.Keyed := by
      rw [List.forall_mem_append, List.forall_mem_singleton]
      exact ⟨hseen, hts.1⟩
    have hrest := ih hafter hseen' hts.2
    rw [List.length_append, List.length_singleton, List.append_assoc, List.singleton_append]
      at hrest
    have hhead : (seen ++ t :: ts).findIdx? (eqBy eq t)
        = some (buckets.add eq hashOf t seen.length).2 := by
      rw [List.append_cons, List.findIdx?_append, hfirst]
      rfl
    rw [firstIndicesFrom, List.map_cons, List.map_cons, hhead, hrest]

/-- Buckets find for each tree of a list what a linear search finds. -/
theorem firstIndices_eq {ts : List (Tree ν)} (hts : ∀ t ∈ ts, t.Keyed) :
    (firstIndices eq hashOf ts).map some = ts.map fun t => ts.findIdx? (eqBy eq t) :=
  firstIndicesFrom_eq heq hhash Buckets.Represent.empty (List.forall_mem_nil _) hts

end

end Tree

/-! ## Hashing documents -/

namespace Document

open JsonTree.Tree

variable {p : Policy}

/-- Equal documents feed the same words. -/
theorem hashWords_of_same (digest : List HashWord → UInt64) {a b : Document p} (ha : a.Keyed)
    (hb : b.Keyed) (h : a.same b = true) : a.hashWords digest = b.hashWords digest := by
  have hsorted : a.sorted = b.sorted := (same_iff_sorted ha hb).1 h
  calc Tree.hashWords digest Number.text a
      = Tree.hashWords digest Number.text a.sorted := (hashWords_sorted ..).symm
    _ = Tree.hashWords digest Number.text b.sorted := by rw [hsorted]
    _ = Tree.hashWords digest Number.text b := hashWords_sorted ..

/-- If the hash does not depend on the order of members, buckets find for each document of a list
what a linear search finds. -/
theorem firstIndices_eq_search {hashOf : Document p → UInt64}
    (hhash : ∀ t, hashOf t.sorted = hashOf t) {ts : List (Document p)} (hts : ∀ t ∈ ts, t.Keyed) :
    (Tree.firstIndices (fun m n => m.text == n.text) hashOf ts).map some
      = ts.map fun t => ts.findIdx? t.same := by
  apply Tree.firstIndices_eq _ hhash hts
  rintro ⟨m⟩ ⟨n⟩
  simp

/-- For every hasher, every state of it and every digest of a member: equal documents leave the
hasher in the same state, and finding documents through the hashes that it gives is finding the first
equal one. The same holds of the hash that documents have. -/
theorem equal_feeds_equal (p : Policy) (digest : List HashWord → UInt64) {σ : Type}
    (hasher : Hasher σ) (s : σ) :
    (∀ a b : Document p, a.Keyed → b.Keyed → a.same b = true →
      hasher.feedAll s (a.hashWords digest) = hasher.feedAll s (b.hashWords digest)) ∧
      ∀ ts : List (Document p), (∀ t ∈ ts, t.Keyed) →
        (Tree.firstIndices (fun m n => m.text == n.text)
            (fun t => hasher.finish (hasher.feedAll s (hashWords digest t))) ts).map some
          = (ts.map fun t => ts.findIdx? t.same) ∧
        (firstIndices ts).map some = ts.map fun t => ts.findIdx? t.same := by
  constructor
  · intro a b ha hb h
    rw [hashWords_of_same digest ha hb h]
  · intro ts hts
    constructor
    · apply firstIndices_eq_search _ hts
      intro t
      exact congrArg (fun ws => hasher.finish (hasher.feedAll s ws))
        (hashWords_sorted digest Number.text t)
    · apply firstIndices_eq_search _ hts
      intro t
      exact congrArg HashWord.digest (hashWords_sorted HashWord.digest Number.text t)

/-- A digest of members with which every sum of two wraps around. -/
def greatestDigest : List HashWord → UInt64 := fun _ => 0xFFFFFFFFFFFFFFFF

/-- A hasher that keeps all words. -/
def keepsWords : Hasher (List HashWord) where
  feed ws w := ws ++ [w]
  finish ws := ws.length.toUInt64

theorem equal_feeds_equal_nested :
    (nested.Keyed ∧ nestedReversed.Keyed ∧ nestedRespelled.Keyed) ∧
      membersDigest greatestDigest Number.text [("x", nested), ("y", nested)] = 0xFFFFFFFFFFFFFFFE ∧
      keepsWords.feedAll [] (nested.hashWords greatestDigest)
        = keepsWords.feedAll [] (nestedReversed.hashWords greatestDigest) ∧
      firstIndices [nestedRespelled, nested, nestedReversed, nestedRespelled] = [0, 1, 1, 0] := by
  have hkeyed : nested.Keyed ∧ nestedReversed.Keyed ∧ nestedRespelled.Keyed := by
    simp [nested, nestedReversed, nestedRespelled, Keyed, ItemsKeyed, MembersKeyed, Members.keys]
  have hlist : ∀ t ∈ [nestedRespelled, nested, nestedReversed, nestedRespelled], t.Keyed := by
    simp [hkeyed]
  obtain ⟨hfeeds, hfinds⟩ := equal_feeds_equal .safe greatestDigest keepsWords []
  have hsearch : ([nestedRespelled, nested, nestedReversed, nestedRespelled].map fun t =>
      [nestedRespelled, nested, nestedReversed, nestedRespelled].findIdx? t.same)
        = [0, 1, 1, 0].map some := by decide
  refine ⟨hkeyed, rfl, hfeeds nested nestedReversed hkeyed.1 hkeyed.2.1 (by decide), ?_⟩
  exact List.map_injective_iff.2 (Option.some_injective _) ((hfinds _ hlist).2.trans hsearch)

end Document

end JsonTree
