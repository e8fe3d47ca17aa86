import JsonTree.Document.Basic
import JsonTree.Proofs.Traversal
import Mathlib.Data.List.Sort
import Mathlib.Data.String.Basic
import Mathlib.Logic.Relation

/-!
# Documents up to the order of members

Two documents are equal if one becomes the other when the members of objects are permuted. The
comparison only counts the members and looks each one on the left up on the right; since no key is
repeated, that is enough, and both are decided by the tree whose members stand in the order of their
keys.

- `Members.sort`: members in the order of their keys.
- `Tree.sorted`: a tree with the members of every object sorted.
- `Tree.Permutes`, `Tree.Rearranges`: permuting the members of one object, and doing so any number
  of times.
- `Tree.rearranges_sorted`, `Tree.Rearranges.sorted_eq`: a tree can be sorted, and rearranging it
  does not change what it is sorted to.
- `Tree.eqBy_iff_sorted`: the comparison decides whether two trees are sorted to the same tree.
- `Document.same_means`: what equality of documents means.
-/

namespace JsonTree

/-! ## Members in the order of their keys -/

namespace Members

variable {α : Type}

/-- The members in the order of their keys. -/
def sort (ms : List (String × α)) : List (String × α) := ms.mergeSort fun m n => m.1 ≤ n.1

/-- Sorting loses no member and makes up none. -/
theorem sort_perm (ms : List (String × α)) : (sort ms).Perm ms := List.mergeSort_perm ..

/-- Sorted members are in the order of their keys. -/
theorem pairwise_sort (ms : List (String × α)) : (sort ms).Pairwise fun m n => m.1 ≤ n.1 := by
  have htrans : ∀ a b c : String × α,
      decide (a.1 ≤ b.1) = true → decide (b.1 ≤ c.1) = true → decide (a.1 ≤ c.1) = true := by
    intro a b c hab hbc
    rw [decide_eq_true_eq] at *
    exact hab.trans hbc
  have htotal : ∀ a b : String × α, (decide (a.1 ≤ b.1) || decide (b.1 ≤ a.1)) = true := by
    intro a b
    rw [Bool.or_eq_true, decide_eq_true_eq, decide_eq_true_eq]
    exact le_total a.1 b.1
  exact (List.pairwise_mergeSort htrans htotal ms).imp of_decide_eq_true

/-- Where no key is repeated, a key has one member. -/
theorem eq_of_mem_of_key_eq {ms : List (String × α)} (h : (keys ms).Nodup) {m n : String × α}
    (hm : m ∈ ms) (hn : n ∈ ms) (hkey : m.1 = n.1) : m = n :=
  List.inj_on_of_nodup_map h hm hn hkey

/-- Members that have distinct keys are sorted to the same members exactly if they are the same but
for their order. -/
theorem sort_eq_sort_iff {ms ns : List (String × α)} (h : (keys ms).Nodup) :
    sort ms = sort ns ↔ ms.Perm ns := by
  constructor
  · intro hsort
    exact (sort_perm ms).symm.trans (hsort ▸ sort_perm ns)
  · intro hperm
    have hsorts : (sort ms).Perm (sort ns) :=
      (sort_perm ms).trans (hperm.trans (sort_perm ns).symm)
    refine List.Perm.eq_of_pairwise ?_ (pairwise_sort ms) (pairwise_sort ns) hsorts
    intro m n hm hn hle hge
    have hm' : m ∈ ms := (sort_perm ms).mem_iff.1 hm
    have hn' : n ∈ ms := hperm.mem_iff.2 ((sort_perm ns).mem_iff.1 hn)
    exact eq_of_mem_of_key_eq h hm' hn' (le_antisymm hle hge)

/-- Where no key is repeated, looking a key up finds its member. -/
theorem lookup_eq_some_iff_mem {ms : List (String × α)} (h : (keys ms).Nodup) (key : String)
    (a : α) : ms.lookup key = some a ↔ (key, a) ∈ ms := by
  constructor
  · intro hlookup
    obtain ⟨before, after, rfl, -⟩ := List.lookup_eq_some_iff.1 hlookup
    exact List.mem_append_right before List.mem_cons_self
  · intro hmem
    cases hlookup : ms.lookup key with
    | none =>
      exact absurd (List.mem_map_of_mem hmem) ((lookup_eq_none_iff key ms).1 hlookup)
    | some b =>
      obtain ⟨before, after, hms, -⟩ := List.lookup_eq_some_iff.1 hlookup
      have hb : (key, b) ∈ ms := hms ▸ List.mem_append_right before List.mem_cons_self
      rw [(Prod.mk.inj (eq_of_mem_of_key_eq h hmem hb rfl)).2]

/-- Members that have distinct keys, as many on both sides, are the same but for their order if each
on the left is one on the right. -/
theorem perm_iff {ms ns : List (String × α)} (h : (keys ms).Nodup) :
    ms.Perm ns ↔ ms.length = ns.length ∧ ∀ m ∈ ms, m ∈ ns := by
  constructor
  · exact fun hperm => ⟨hperm.length_eq, fun m => hperm.mem_iff.1⟩
  · rintro ⟨hlength, hmem⟩
    exact (List.subperm_of_subset h.of_map hmem).perm_of_length_le hlength.ge

/-- Members that have distinct keys are the same but for their order exactly if they look every key
up to the same value. -/
theorem perm_iff_lookup {ms ns : List (String × α)} (hms : (keys ms).Nodup)
    (hns : (keys ns).Nodup) : ms.Perm ns ↔ ∀ key, ms.lookup key = ns.lookup key := by
  rw [List.perm_ext_iff_of_nodup hms.of_map hns.of_map, Prod.forall]
  refine forall_congr' fun key => ?_
  rw [Option.ext_iff]
  refine forall_congr' fun a => ?_
  rw [lookup_eq_some_iff_mem hms, lookup_eq_some_iff_mem hns]

end Members

namespace Tree

variable {ν : Type}

/-! ## Sorting a tree -/

/-- The tree in which the members of every object stand in the order of their keys. -/
def sorted (t : Tree ν) : Tree ν := rebuild Members.sort .num t

@[simp] theorem sorted_null : (.null : Tree ν).sorted = .null := rfl

@[simp] theorem sorted_bool (b : Bool) : (.bool b : Tree ν).sorted = .bool b := rfl

@[simp] theorem sorted_str (s : String) : (.str s : Tree ν).sorted = .str s := rfl

@[simp] theorem sorted_num (n : ν) : (.num n : Tree ν).sorted = .num n := rfl

@[simp] theorem sorted_arr (items : List (Tree ν)) :
    (.arr items : Tree ν).sorted = .arr (items.map sorted) := rebuild_arr ..

@[simp] theorem sorted_obj (members : List (String × Tree ν)) :
    (.obj members : Tree ν).sorted = .obj (Members.sort (members.map fun m => (m.1, m.2.sorted))) :=
  rebuild_obj ..

/-- Sorting the values leaves the keys alone. -/
theorem keys_map_sorted (members : List (String × Tree ν)) :
    Members.keys (members.map fun m => (m.1, m.2.sorted)) = Members.keys members :=
  keys_map_rebuild members

/-- Objects are sorted to the same object exactly if they look every key up to values that are
sorted to the same tree. -/
theorem sorted_obj_eq_iff {ms ns : List (String × Tree ν)} (hms : (Members.keys ms).Nodup)
    (hns : (Members.keys ns).Nodup) :
    (obj ms).sorted = (obj ns).sorted ↔
      ∀ key, (ms.lookup key).map sorted = (ns.lookup key).map sorted := by
  rw [← keys_map_sorted] at hms hns
  rw [sorted_obj, sorted_obj, Tree.obj.injEq, Members.sort_eq_sort_iff hms,
    Members.perm_iff_lookup hms hns]
  simp only [Members.lookup_map_snd]

/-! ## Permuting the members of objects -/

/-- The members of one object, anywhere in the tree, are permuted. -/
inductive Permutes : Tree ν → Tree ν → Prop
  | members {ms ns : List (String × Tree ν)} (h : ms.Perm ns) : Permutes (.obj ms) (.obj ns)
  | item {before after : List (Tree ν)} {t u : Tree ν} (h : Permutes t u) :
    Permutes (.arr (before ++ t :: after)) (.arr (before ++ u :: after))
  | value {before after : List (String × Tree ν)} {key : String} {t u : Tree ν}
    (h : Permutes t u) :
    Permutes (.obj (before ++ (key, t) :: after)) (.obj (before ++ (key, u) :: after))

/-- One tree becomes the other by permuting the members of objects, at any levels. -/
def Rearranges : Tree ν → Tree ν → Prop := Relation.ReflTransGen Permutes

theorem Permutes.symm {t u : Tree ν} (h : Permutes t u) : Permutes u t := by
  induction h with
  | members h => exact .members h.symm
  | item _ ih => exact .item ih
  | value _ ih => exact .value ih

namespace Rearranges

/-- A rearrangement can be undone. -/
theorem symm {t u : Tree ν} (h : Rearranges t u) : Rearranges u t := by
  induction h with
  | refl => exact .refl
  | tail _ hstep ih => exact .head hstep.symm ih

/-- A rearrangement inside an item is one of the array. -/
theorem item {t u : Tree ν} (h : Rearranges t u) (before after : List (Tree ν)) :
    Rearranges (.arr (before ++ t :: after)) (.arr (before ++ u :: after)) := by
  induction h with
  | refl => exact .refl
  | tail _ hstep ih => exact ih.tail (.item hstep)

/-- A rearrangement inside a value is one of the object. -/
theorem value {t u : Tree ν} (h : Rearranges t u) (before after : List (String × Tree ν))
    (key : String) :
    Rearranges (.obj (before ++ (key, t) :: after)) (.obj (before ++ (key, u) :: after)) := by
  induction h with
  | refl => exact .refl
  | tail _ hstep ih => exact ih.tail (.value hstep)

/-- Items are rearranged from the first to the last. -/
theorem items {f : Tree ν → Tree ν} {ts : List (Tree ν)} (h : ∀ t ∈ ts, Rearranges t (f t))
    (done : List (Tree ν)) : Rearranges (.arr (done ++ ts)) (.arr (done ++ ts.map f)) := by
  induction ts generalizing done with
  | nil => exact .refl
  | cons t ts ih =>
    rw [List.forall_mem_cons] at h
    have htail := ih h.2 (done ++ [f t])
    rw [List.append_assoc, List.append_assoc] at htail
    exact (h.1.item done ts).trans htail

/-- The values of members are rearranged from the first to the last. -/
theorem members {f : Tree ν → Tree ν} {ms : List (String × Tree ν)}
    (h : ∀ m ∈ ms, Rearranges m.2 (f m.2)) (done : List (String × Tree ν)) :
    Rearranges (.obj (done ++ ms)) (.obj (done ++ ms.map fun m => (m.1, f m.2))) := by
  induction ms generalizing done with
  | nil => exact .refl
  | cons m ms ih =>
    rw [List.forall_mem_cons] at h
    have htail := ih h.2 (done ++ [(m.1, f m.2)])
    rw [List.append_assoc, List.append_assoc] at htail
    exact (h.1.value done ms m.1).trans htail

end Rearranges

/-- A tree can be sorted by permuting the members of objects. -/
theorem rearranges_sorted (t : Tree ν) : Rearranges t t.sorted := by
  induction t with
  | null => exact .refl
  | bool b => exact .refl
  | str s => exact .refl
  | num n => exact .refl
  | arr items ih =>
    rw [sorted_arr]
    exact Rearranges.items ih []
  | obj members ih =>
    rw [sorted_obj]
    -- the values first, then the members themselves
    exact (Rearranges.members ih []).tail (.members (Members.sort_perm _).symm)

/-- Permuting the members of one object leaves the sorted tree as it is, and repeats no key. -/
theorem Permutes.sorted_eq {t u : Tree ν} (h : Permutes t u) (ht : t.Keyed) :
    t.sorted = u.sorted ∧ u.Keyed := by
  induction h with
  | @members ms ns h =>
    rw [Keyed, membersKeyed_iff] at ht
    -- only here the order changes, and distinct keys have one sorted order
    have hsort := (Members.sort_eq_sort_iff ((keys_map_sorted ms).symm ▸ ht.1)).2
      (h.map fun m => (m.1, m.2.sorted))
    refine ⟨by rw [sorted_obj, sorted_obj, hsort], ?_⟩
    rw [Keyed, membersKeyed_iff]
    exact ⟨(h.map Prod.fst).nodup_iff.1 ht.1, fun m hm => ht.2 m (h.mem_iff.2 hm)⟩
  | item _ ih =>
    rw [Keyed, itemsKeyed_iff, List.forall_mem_append, List.forall_mem_cons] at ht
    obtain ⟨hsorted, hkeyed⟩ := ih ht.2.1
    refine ⟨by simp [hsorted], ?_⟩
    rw [Keyed, itemsKeyed_iff, List.forall_mem_append, List.forall_mem_cons]
    exact ⟨ht.1, hkeyed, ht.2.2⟩
  | value _ ih =>
    rw [Keyed, membersKeyed_iff, List.forall_mem_append, List.forall_mem_cons] at ht
    obtain ⟨hsorted, hkeyed⟩ := ih ht.2.2.1
    refine ⟨by simp [hsorted], ?_⟩
    rw [Keyed, membersKeyed_iff, List.forall_mem_append, List.forall_mem_cons]
    refine ⟨?_, ht.2.1, hkeyed, ht.2.2.2⟩
    simpa using ht.1

/-- Rearranging a tree leaves the sorted tree as it is, and repeats no key. -/
theorem Rearranges.sorted_eq {t u : Tree ν} (h : Rearranges t u) (ht : t.Keyed) :
    t.sorted = u.sorted ∧ u.Keyed := by
  induction h with
  | refl => exact ⟨rfl, ht⟩
  | tail _ hstep ih =>
    obtain ⟨hsorted, hkeyed⟩ := hstep.sorted_eq ih.2
    exact ⟨ih.1.trans hsorted, hkeyed⟩

/-- Trees rearrange to each other exactly if they are sorted to the same tree. -/
theorem rearranges_iff_sorted {t u : Tree ν} (ht : t.Keyed) :
    Rearranges t u ↔ t.sorted = u.sorted := by
  constructor
  · exact fun h => (h.sorted_eq ht).1
  · intro h
    have hback : Rearranges t.sorted u := h ▸ (rearranges_sorted u).symm
    exact (rearranges_sorted t).trans hback

/-! ## The comparison -/

section

variable {eq : ν → ν → Bool}

theorem itemsEqBy_iff_map_sorted {ts us : List (Tree ν)}
    (h : ∀ t ∈ ts, ∀ u ∈ us, eqBy eq t u = true ↔ t.sorted = u.sorted) :
    itemsEqBy eq ts us = true ↔ ts.map sorted = us.map sorted := by
  induction ts generalizing us with
  | nil => cases us <;> simp [itemsEqBy]
  | cons t ts ih =>
    cases us with
    | nil => simp [itemsEqBy]
    | cons u us =>
      have hhead := h t List.mem_cons_self u List.mem_cons_self
      have htail := ih fun t ht u hu => h t (List.mem_cons_of_mem _ ht) u (List.mem_cons_of_mem _ hu)
      rw [itemsEqBy, Bool.and_eq_true, hhead, htail, List.map_cons, List.map_cons, List.cons.injEq]

/-- Counting the members and finding each one on the left among those on the right is comparing them
up to their order. -/
theorem membersFoundBy_iff_perm {ms ns : List (String × Tree ν)} (hms : (Members.keys ms).Nodup)
    (hns : (Members.keys ns).Nodup)
    (h : ∀ m ∈ ms, ∀ n ∈ ns, eqBy eq m.2 n.2 = true ↔ m.2.sorted = n.2.sorted) :
    (ms.length = ns.length ∧ membersFoundBy eq ms ns = true) ↔
      (ms.map fun m => (m.1, m.2.sorted)).Perm (ns.map fun n => (n.1, n.2.sorted)) := by
  have hfound : ∀ m ∈ ms, (∃ u, ns.lookup m.1 = some u ∧ eqBy eq m.2 u = true) ↔
      (m.1, m.2.sorted) ∈ ns.map fun n => (n.1, n.2.sorted) := by
    intro m hm
    rw [List.mem_map]
    constructor
    · rintro ⟨u, hlookup, hu⟩
      have hmem := (Members.lookup_eq_some_iff_mem hns m.1 u).1 hlookup
      exact ⟨(m.1, u), hmem, by rw [(h m hm _ hmem).1 hu]⟩
    · rintro ⟨n, hn, heq⟩
      obtain ⟨hkey, hsorted⟩ := Prod.mk.inj heq
      refine ⟨n.2, ?_, (h m hm n hn).2 hsorted.symm⟩
      rw [← hkey, Members.lookup_eq_some_iff_mem hns]
      exact hn
  rw [Members.perm_iff ((keys_map_sorted ms).symm ▸ hms), List.length_map, List.length_map,
    List.forall_mem_map, membersFoundBy_iff]
  exact and_congr_right fun _ => forall₂_congr hfound

/-- If numbers are compared by identity, the comparison decides whether two trees are sorted to the
same tree. -/
theorem eqBy_iff_sorted (heq : ∀ m n, eq m n = true ↔ m = n) {t u : Tree ν} (ht : t.Keyed)
    (hu : u.Keyed) : eqBy eq t u = true ↔ t.sorted = u.sorted := by
  induction t generalizing u with
  | null => cases u <;> simp [eqBy]
  | bool b => cases u <;> simp [eqBy]
  | str s => cases u <;> simp [eqBy]
  | num n => cases u <;> simp [eqBy, heq]
  | arr items ih =>
    cases u with
    | arr items' =>
      rw [Keyed, itemsKeyed_iff] at ht hu
      rw [eqBy, sorted_arr, sorted_arr, Tree.arr.injEq]
      exact itemsEqBy_iff_map_sorted fun t h u h' => ih t h (ht t h) (hu u h')
    | _ => simp [eqBy]
  | obj members ih =>
    cases u with
    | obj members' =>
      rw [Keyed, membersKeyed_iff] at ht hu
      rw [eqBy, Bool.and_eq_true, beq_iff_eq, sorted_obj, sorted_obj, Tree.obj.injEq,
        Members.sort_eq_sort_iff ((keys_map_sorted members).symm ▸ ht.1)]
      exact membersFoundBy_iff_perm ht.1 hu.1 fun m h n h' => ih m h (ht.2 m h) (hu.2 n h')
    | _ => simp [eqBy]

end

end Tree

/-! ## Equality of documents -/

namespace Document

open JsonTree.Tree

variable {p : Policy}

/-- Documents are equal exactly if their sorted forms are the same. -/
theorem same_iff_sorted {a b : Document p} (ha : a.Keyed) (hb : b.Keyed) :
    a.same b = true ↔ a.sorted = b.sorted := by
  apply eqBy_iff_sorted _ ha hb
  rintro ⟨m⟩ ⟨n⟩
  simp

/-- Two documents are equal exactly if one becomes the other by permuting the members of objects, at
any levels; exactly if they are the same once the members of every object are sorted by their keys.
So equality is an equivalence on the documents that repeat no key. -/
theorem same_means (p : Policy) :
    (∀ a b : Document p, a.Keyed → b.Keyed →
      (a.same b = true ↔ Rearranges a b) ∧ (a.same b = true ↔ a.sorted = b.sorted)) ∧
      Equivalence fun a b : {t : Document p // t.Keyed} => a.1.same b.1 = true := by
  constructor
  · intro a b ha hb
    have hsorted := same_iff_sorted ha hb
    exact ⟨hsorted.trans (rearranges_iff_sorted ha).symm, hsorted⟩
  · have hsorted : ∀ a b : {t : Document p // t.Keyed},
        a.1.same b.1 = true ↔ a.1.sorted = b.1.sorted := fun a b => same_iff_sorted a.2 b.2
    refine ⟨fun a => (hsorted a a).2 rfl, ?_, ?_⟩
    · intro a b h
      exact (hsorted b a).2 ((hsorted a b).1 h).symm
    · intro a b c h h'
      exact (hsorted a c).2 (((hsorted a b).1 h).trans ((hsorted b c).1 h'))

/-- Two objects, one inside the other. -/
def nested : Document .safe :=
  .obj [("a", .arr [.num ⟨"1.0"⟩, .obj [("x", .null), ("y", .str "")]]), ("b", .bool true)]

/-- The members of both objects in another order. -/
def nestedReversed : Document .safe :=
  .obj [("b", .bool true), ("a", .arr [.num ⟨"1.0"⟩, .obj [("y", .str ""), ("x", .null)]])]

/-- Another spelling of the number. -/
def nestedRespelled : Document .safe :=
  .obj [("a", .arr [.num ⟨"1.00"⟩, .obj [("x", .null), ("y", .str "")]]), ("b", .bool true)]

theorem same_means_nested :
    (nested.Keyed ∧ nestedReversed.Keyed ∧ nestedRespelled.Keyed) ∧
      (Rearranges nested nestedReversed ∧ nested.sorted = nestedReversed.sorted) ∧
        ¬ Rearranges nested nestedRespelled := by
  have hkeyed : nested.Keyed ∧ nestedReversed.Keyed ∧ nestedRespelled.Keyed := by
    simp [nested, nestedReversed, nestedRespelled, Keyed, ItemsKeyed, MembersKeyed, Members.keys]
  have hsame : nested.same nestedReversed = true := by decide
  have hother : nested.same nestedRespelled = false := by decide
  obtain ⟨hrearranges, hsorted⟩ := (same_means .safe).1 nested nestedReversed hkeyed.1 hkeyed.2.1
  obtain ⟨hrespelled, -⟩ := (same_means .safe).1 nested nestedRespelled hkeyed.1 hkeyed.2.2
  refine ⟨hkeyed, ⟨hrearranges.1 hsame, hsorted.1 hsame⟩, ?_⟩
  rw [← hrespelled, hother]
  exact Bool.false_ne_true

end Document

end JsonTree
