import JsonTree.Proofs.HashAgreement
import JsonTree.Proofs.Soundness
import Mathlib.Data.List.Induction

/-!
# Objects from pairs

Pairs with any repetition of keys are collected in two ways, which differ in the order of the
members only. Both keep every key once, with the value of its last occurrence; `ofList` orders the
keys by their last occurrences, `ofSets` by their first. That members collect the pairs read so far
is the invariant, and one more pair keeps it.

- `Members.LastAt`, `Members.FirstAt`: where a key is last, and where it is first.
- `Members.Collects`: the invariant; `Collects.put`, `Collects.set`: one more pair keeps it.
- `Members.collects_ofList`, `Members.collects_ofSets`: it holds of all pairs.
- `Members.Collects.perm`: what collects the same pairs is the same but for its order.
- `Tree.Lists`: the views of an object list its members; `Tree.lists_obj`.
- `Document.object_collects`: both objects, and that they are equal and hash equally.
-/

namespace JsonTree

namespace Members

variable {α : Type}

/-! ## Places -/

/-- The key stands at the place, and at no later one. -/
def LastAt (ks : List String) (i : Nat) (key : String) : Prop :=
  ks[i]? = some key ∧ ∀ j, i < j → ks[j]? ≠ some key

/-- The key stands at the place, and at no earlier one. -/
def FirstAt (ks : List String) (i : Nat) (key : String) : Prop :=
  ks[i]? = some key ∧ ∀ j < i, ks[j]? ≠ some key

/-- The place of one key lies before the place of another. -/
def Precedes (place : List String → Nat → String → Prop) (ks : List String) (k l : String) : Prop :=
  ∃ i j, i < j ∧ place ks i k ∧ place ks j l

theorem getElem?_concat_eq_some_iff {β : Type} {xs : List β} {x y : β} {i : Nat} :
    (xs ++ [x])[i]? = some y ↔ xs[i]? = some y ∨ (i = xs.length ∧ y = x) := by
  rcases Nat.lt_trichotomy i xs.length with hlt | rfl | hgt
  · have hne : i ≠ xs.length := by omega
    rw [List.getElem?_append_left hlt]
    simp [hne]
  · simp [eq_comm]
  · have hne : i ≠ xs.length := by omega
    rw [List.getElem?_eq_none (by simp; omega), List.getElem?_eq_none (by omega)]
    simp [hne]

section

variable {ks : List String} {i : Nat} {key k : String}

/-- A key that is put at the end is last there; the last places of the other keys stay. -/
theorem lastAt_concat_iff :
    LastAt (ks ++ [k]) i key ↔ (i = ks.length ∧ key = k) ∨ (key ≠ k ∧ LastAt ks i key) := by
  constructor
  · rintro ⟨hplace, hlater⟩
    rcases getElem?_concat_eq_some_iff.1 hplace with hplace | hend
    · have hlt : i < ks.length := (List.getElem?_eq_some_iff.1 hplace).1
      refine Or.inr ⟨?_, hplace, fun j hj hkey => ?_⟩
      · rintro rfl
        exact hlater ks.length hlt (getElem?_concat_eq_some_iff.2 (.inr ⟨rfl, rfl⟩))
      · exact hlater j hj (getElem?_concat_eq_some_iff.2 (.inl hkey))
    · exact Or.inl hend
  · rintro (⟨rfl, rfl⟩ | ⟨hne, hplace, hlater⟩)
    · refine ⟨getElem?_concat_eq_some_iff.2 (.inr ⟨rfl, rfl⟩), fun j hj hkey => ?_⟩
      have hlt : j < (ks ++ [key]).length := (List.getElem?_eq_some_iff.1 hkey).1
      rw [List.length_append, List.length_singleton] at hlt
      omega
    · refine ⟨getElem?_concat_eq_some_iff.2 (.inl hplace), fun j hj hkey => ?_⟩
      rcases getElem?_concat_eq_some_iff.1 hkey with hkey | ⟨-, rfl⟩
      · exact hlater j hj hkey
      · exact hne rfl

/-- A key that is put at the end is first there if it is new; all other first places stay. -/
theorem firstAt_concat_iff :
    FirstAt (ks ++ [k]) i key ↔ FirstAt ks i key ∨ (i = ks.length ∧ key = k ∧ k ∉ ks) := by
  constructor
  · rintro ⟨hplace, hearlier⟩
    rcases getElem?_concat_eq_some_iff.1 hplace with hplace | ⟨rfl, rfl⟩
    · refine Or.inl ⟨hplace, fun j hj hkey => ?_⟩
      exact hearlier j hj (getElem?_concat_eq_some_iff.2 (.inl hkey))
    · refine Or.inr ⟨rfl, rfl, fun hmem => ?_⟩
      obtain ⟨j, hj⟩ := List.mem_iff_getElem?.1 hmem
      have hlt : j < ks.length := (List.getElem?_eq_some_iff.1 hj).1
      exact hearlier j hlt (getElem?_concat_eq_some_iff.2 (.inl hj))
  · rintro (⟨hplace, hearlier⟩ | ⟨rfl, rfl, hnew⟩)
    · have hlt : i < ks.length := (List.getElem?_eq_some_iff.1 hplace).1
      refine ⟨getElem?_concat_eq_some_iff.2 (.inl hplace), fun j hj hkey => ?_⟩
      rcases getElem?_concat_eq_some_iff.1 hkey with hkey | ⟨rfl, -⟩
      · exact hearlier j hj hkey
      · omega
    · refine ⟨getElem?_concat_eq_some_iff.2 (.inr ⟨rfl, rfl⟩), fun j hj hkey => ?_⟩
      rcases getElem?_concat_eq_some_iff.1 hkey with hkey | ⟨rfl, -⟩
      · exact hnew (List.mem_of_getElem? hkey)
      · omega

/-- A key that occurs has a last occurrence. -/
theorem exists_lastAt (h : key ∈ ks) : ∃ i, LastAt ks i key := by
  induction ks using List.reverseRecOn with
  | nil => cases h
  | append_singleton ks k ih =>
    by_cases hk : key = k
    · exact ⟨ks.length, lastAt_concat_iff.2 (.inl ⟨rfl, hk⟩)⟩
    · have hmem : key ∈ ks := (List.mem_append.1 h).resolve_right (mt List.mem_singleton.1 hk)
      obtain ⟨i, hi⟩ := ih hmem
      exact ⟨i, lastAt_concat_iff.2 (.inr ⟨hk, hi⟩)⟩

/-- A key that occurs has a first occurrence. -/
theorem exists_firstAt (h : key ∈ ks) : ∃ i, FirstAt ks i key := by
  induction ks using List.reverseRecOn with
  | nil => cases h
  | append_singleton ks k ih =>
    by_cases hmem : key ∈ ks
    · obtain ⟨i, hi⟩ := ih hmem
      exact ⟨i, firstAt_concat_iff.2 (.inl hi)⟩
    · obtain rfl := List.mem_singleton.1 ((List.mem_append.1 h).resolve_left hmem)
      exact ⟨ks.length, firstAt_concat_iff.2 (.inr ⟨rfl, rfl, hmem⟩)⟩

end

/-! ## Collected pairs -/

/-- The members hold the keys of the pairs, each once, with the value of its last occurrence, in the
order of the places. -/
structure Collects (place : List String → Nat → String → Prop) (pairs ms : List (String × α)) :
    Prop where
  nodup : (keys ms).Nodup
  mem_keys : ∀ key, key ∈ keys ms ↔ key ∈ keys pairs
  lookup : ∀ i m, pairs[i]? = some m → LastAt (keys pairs) i m.1 → ms.lookup m.1 = some m.2
  ordered : (keys ms).Pairwise (Precedes place (keys pairs))

namespace Collects

variable {place place' : List String → Nat → String → Prop}
variable {pairs ms ns : List (String × α)}

/-- No pairs are collected to no members. -/
theorem nil : Collects place ([] : List (String × α)) [] where
  nodup := List.nodup_nil
  mem_keys _ := Iff.rfl
  lookup := nofun
  ordered := List.Pairwise.nil

/-- One more pair: its key gets its value, wherever it is put. -/
theorem concat (h : Collects place pairs ms) {m : String × α} (nodup : (keys ns).Nodup)
    (hlookup : ∀ key, ns.lookup key = if key = m.1 then some m.2 else ms.lookup key)
    (ordered : (keys ns).Pairwise (Precedes place (keys pairs ++ [m.1]))) :
    Collects place (pairs ++ [m]) ns where
  nodup := nodup
  mem_keys key := by
    have hkey := h.mem_keys key
    rw [← not_iff_not, ← lookup_eq_none_iff] at hkey
    rw [← not_iff_not, ← lookup_eq_none_iff, hlookup, keys_append]
    by_cases heq : key = m.1
    · simp [heq]
    · simpa [heq] using hkey
  lookup i n hn hlast := by
    rw [keys_append] at hlast
    rw [hlookup]
    -- an earlier occurrence is the last one only of a key other than the new one
    rcases getElem?_concat_eq_some_iff.1 hn with hn | ⟨-, rfl⟩
    · have hlt : i < (keys pairs).length := by
        have hlt := (List.getElem?_eq_some_iff.1 hn).1
        rwa [keys, List.length_map]
      rcases lastAt_concat_iff.1 hlast with ⟨rfl, -⟩ | ⟨hne, hlast⟩
      · omega
      · rw [if_neg hne]
        exact h.lookup i n hn hlast
    · rw [if_pos rfl]
  ordered := by
    rw [keys_append]
    exact ordered

/-- `put` moves the key of the new pair to the end, which is where its last occurrence is. -/
theorem put (h : Collects LastAt pairs ms) (m : String × α) :
    Collects LastAt (pairs ++ [m]) (Members.put ms m) := by
  refine h.concat (nodup_keys_put h.nodup m) (lookup_put ms m) ?_
  rw [keys_put, List.pairwise_append]
  refine ⟨?_, List.pairwise_singleton _ _, ?_⟩
  · refine List.Pairwise.imp_of_mem ?_ (h.ordered.filter _)
    rintro k l hk hl ⟨i, j, hij, hi, hj⟩
    have hk' : k ≠ m.1 := by simpa using (List.mem_filter.1 hk).2
    have hl' : l ≠ m.1 := by simpa using (List.mem_filter.1 hl).2
    exact ⟨i, j, hij, lastAt_concat_iff.2 (.inr ⟨hk', hi⟩), lastAt_concat_iff.2 (.inr ⟨hl', hj⟩)⟩
  · -- the keys that are left have their last places before the end
    intro k hk l hl
    obtain rfl := List.mem_singleton.1 hl
    obtain ⟨hk, hne⟩ := List.mem_filter.1 hk
    obtain ⟨i, hi⟩ := exists_lastAt ((h.mem_keys k).1 hk)
    have hlt : i < (keys pairs).length := (List.getElem?_eq_some_iff.1 hi.1).1
    exact ⟨i, _, hlt, lastAt_concat_iff.2 (.inr ⟨by simpa using hne, hi⟩),
      lastAt_concat_iff.2 (.inl ⟨rfl, rfl⟩)⟩

/-- `set` leaves a key where its first occurrence is, and gives it the new value. -/
theorem set (h : Collects FirstAt pairs ms) (m : String × α) :
    Collects FirstAt (pairs ++ [m]) (Members.set ms m) := by
  refine h.concat (nodup_keys_set h.nodup m) (lookup_set ms m) ?_
  have hkept : (keys ms).Pairwise (Precedes FirstAt (keys pairs ++ [m.1])) := by
    refine h.ordered.imp ?_
    rintro k l ⟨i, j, hij, hi, hj⟩
    exact ⟨i, j, hij, firstAt_concat_iff.2 (.inl hi), firstAt_concat_iff.2 (.inl hj)⟩
  rw [keys_set]
  split
  · exact hkept
  · rename_i hnew
    rw [List.pairwise_append]
    refine ⟨hkept, List.pairwise_singleton _ _, ?_⟩
    intro k hk l hl
    obtain rfl := List.mem_singleton.1 hl
    obtain ⟨i, hi⟩ := exists_firstAt ((h.mem_keys k).1 hk)
    have hlt : i < (keys pairs).length := (List.getElem?_eq_some_iff.1 hi.1).1
    exact ⟨i, _, hlt, firstAt_concat_iff.2 (.inl hi),
      firstAt_concat_iff.2 (.inr ⟨rfl, rfl, mt (h.mem_keys m.1).2 hnew⟩)⟩

/-- The pairs decide what a key is looked up to. -/
theorem lookup_eq (h : Collects place pairs ms) (h' : Collects place' pairs ns) (key : String) :
    ms.lookup key = ns.lookup key := by
  by_cases hkey : key ∈ keys pairs
  · obtain ⟨i, hlast⟩ := exists_lastAt hkey
    obtain ⟨m, hm, rfl⟩ : ∃ m, pairs[i]? = some m ∧ m.1 = key := by
      have hplace := hlast.1
      rwa [keys, List.getElem?_map, Option.map_eq_some_iff] at hplace
    rw [h.lookup i m hm hlast, h'.lookup i m hm hlast]
  · rw [(lookup_eq_none_iff key ms).2 (mt (h.mem_keys key).1 hkey),
      (lookup_eq_none_iff key ns).2 (mt (h'.mem_keys key).1 hkey)]

/-- Both collections have the same members, in orders of their own. -/
theorem perm (h : Collects place pairs ms) (h' : Collects place' pairs ns) : ms.Perm ns :=
  (perm_iff_lookup h.nodup h'.nodup).2 (h.lookup_eq h')

end Collects

/-- `ofList` orders the keys by their last occurrences. -/
theorem collects_ofList (pairs : List (String × α)) : Collects LastAt pairs (ofList pairs) := by
  induction pairs using List.reverseRecOn with
  | nil => exact .nil
  | append_singleton pairs m ih =>
    rw [ofList, List.foldl_append]
    exact ih.put m

/-- `ofSets` orders the keys by their first occurrences. -/
theorem collects_ofSets (pairs : List (String × α)) : Collects FirstAt pairs (ofSets pairs) := by
  induction pairs using List.reverseRecOn with
  | nil => exact .nil
  | append_singleton pairs m ih =>
    rw [ofSets, List.foldl_append]
    exact ih.set m

end Members

/-! ## Views of an object -/

namespace Tree

variable {ν : Type}

/-- Every view of the tree shows these members. -/
structure Lists (t : Tree ν) (ms : List (String × Tree ν)) : Prop where
  members : t.members? = some ms
  length : t.length? = some ms.length
  keys_values : ∃ ks us, t.members?.map Members.keys = some ks ∧
    t.members?.map Members.values = some us ∧ ks.zip us = ms
  get : ∀ key u, t.get? key = some u ↔ (key, u) ∈ ms
  contains : ∀ key, t.contains key = true ↔ key ∈ Members.keys ms

/-- The views of an object list its members. -/
theorem lists_obj {ms : List (String × Tree ν)} (h : (Members.keys ms).Nodup) :
    (obj ms).Lists ms where
  members := rfl
  length := rfl
  keys_values := ⟨_, _, rfl, rfl, (List.zip_of_prod rfl rfl).symm⟩
  get := Members.lookup_eq_some_iff_mem h
  contains key := by simp [contains, Members.keys]

end Tree

/-! ## Two objects of the same pairs -/

namespace Document

open Members JsonTree.Tree

variable {p : Policy} {pairs : List (String × Document p)}

/-- Gathering makes a keyed object from keyed values, however often the pairs name a key. -/
theorem keyed_gather {gather : List (String × Document p) → List (String × Document p)}
    (hgather : Gathers gather) (h : ∀ m ∈ pairs, m.2.Keyed) :
    (Tree.obj (gather pairs)).Keyed := by
  rw [Keyed, membersKeyed_iff]
  exact ⟨hgather.nodup pairs, fun m hm => h m (hgather.mem pairs m hm)⟩

/-- Equality does not see the order of members. -/
theorem same_of_perm {ms ns : List (String × Document p)} (hms : (Tree.obj ms).Keyed)
    (h : ms.Perm ns) : same (.obj ms) (.obj ns) = true := by
  obtain ⟨hsorted, hns⟩ := (Permutes.members h).sorted_eq hms
  exact (same_iff_sorted hms hns).2 hsorted

/-- An object collected from pairs holds their keys, each once and with its last value, ordered by
the last occurrences; an object that the pairs are put into one by one holds the same, ordered by
the first occurrences. All views of the objects show these members. The two objects look a key up to
the same value, are equal and feed a hasher the same. An object that is collected from its own
members is the same object. -/
theorem object_collects (p : Policy) :
    (∀ pairs : List (String × Document p), (∀ m ∈ pairs, m.2.Keyed) →
      (Collects LastAt pairs (ofList pairs) ∧ (object pairs).Lists (ofList pairs)) ∧
      (Collects FirstAt pairs (ofSets pairs) ∧ (Tree.obj (ofSets pairs)).Lists (ofSets pairs)) ∧
      (∀ key, (object pairs).get? key = (Tree.obj (ofSets pairs)).get? key) ∧
      same (object pairs) (.obj (ofSets pairs)) = true ∧
      ∀ digest, hashWords digest (object pairs) = hashWords digest (.obj (ofSets pairs))) ∧
    ∀ t : Document p, t.Keyed → ∀ ms, t.members? = some ms → object ms = t := by
  constructor
  · intro pairs hpairs
    have hlast := collects_ofList pairs
    have hfirst := collects_ofSets pairs
    have hobject : (object pairs).Keyed := keyed_gather gathers_ofList hpairs
    have hmap : (Tree.obj (ofSets pairs)).Keyed := keyed_gather gathers_ofSets hpairs
    have hsame : same (object pairs) (.obj (ofSets pairs)) = true :=
      same_of_perm hobject (hlast.perm hfirst)
    exact ⟨⟨hlast, lists_obj hlast.nodup⟩, ⟨hfirst, lists_obj hfirst.nodup⟩,
      hlast.lookup_eq hfirst, hsame, fun digest => hashWords_of_same digest hobject hmap hsame⟩
  · intro t ht ms hms
    cases t with
    | obj members =>
      obtain rfl := Option.some.inj hms
      exact congrArg Tree.obj (ofList_eq_self ht.1)
    | _ => cases hms

/-- A key that comes three times, another that comes twice, and the empty key once. -/
def repeatingPairs : List (String × Document .safe) :=
  [("a", .null), ("b", .bool true), ("a", .arr []), ("", .num ⟨"1"⟩), ("b", .obj [("a", .null)]),
    ("a", .str "last")]

theorem object_collects_repeatingPairs :
    (∀ m ∈ repeatingPairs, m.2.Keyed) ∧
      keys (ofList repeatingPairs) = ["", "b", "a"] ∧
      keys (ofSets repeatingPairs) = ["a", "b", ""] ∧
      ((object repeatingPairs).get? "a" = some (.str "last") ↔
        ("a", .str "last") ∈ ofList repeatingPairs) ∧
      same (object repeatingPairs) (.obj (ofSets repeatingPairs)) = true ∧
      object (ofSets repeatingPairs) = .obj (ofSets repeatingPairs) := by
  have hpairs : ∀ m ∈ repeatingPairs, m.2.Keyed := by
    simp [repeatingPairs, Keyed, ItemsKeyed, MembersKeyed, Members.keys]
  obtain ⟨⟨-, hlists⟩, -, -, hsame, -⟩ := (object_collects .safe).1 repeatingPairs hpairs
  have hown := (object_collects .safe).2 _ (keyed_gather gathers_ofSets hpairs) _ rfl
  exact ⟨hpairs, by decide, by decide, hlists.get _ _, hsame, hown⟩

end Document

end JsonTree
