import JsonTree.Proofs.CollectedMembers

/-!
# Concatenated objects

Two objects are concatenated by collecting the members of the first and then those of the second. A
key of the second takes its place and its value from there; the other keys stay as they stood in the
first. So pairs may be collected in one go or in several, and the laws of concatenation are laws of
that.

- `Members.without`: the members under other keys.
- `Members.foldl_put`: what collecting pairs does to the members that are there before.
- `Members.ofList_ofList_append`, `Members.ofList_append_ofList`: either part of the pairs may be
  collected beforehand.
- `Members.lookup_ofList_append`: where a key is looked up among concatenated members.
- `Document.get_object_append`: the same of objects.
- `Document.same_obj_iff`: equality of objects, key by key.
- `Document.concat_laws`: objects under concatenation.
-/

namespace JsonTree

namespace Members

variable {α : Type}

/-! ## Collecting on top of members -/

/-- The members under other keys than these. -/
def without (ks : List String) (ms : List (String × α)) : List (String × α) :=
  ms.filter fun m => m.1 ∉ ks

theorem keys_without (ks : List String) (ms : List (String × α)) :
    keys (without ks ms) = (keys ms).filter (· ∉ ks) := by
  rw [keys, keys, List.filter_map]
  rfl

theorem without_congr {ks ls : List String} (h : ∀ key, key ∈ ks ↔ key ∈ ls)
    (ms : List (String × α)) : without ks ms = without ls ms := by
  unfold without
  simp only [h]

/-- Leaving out one more key. -/
theorem erase_without (ks : List String) (key : String) (ms : List (String × α)) :
    erase key (without ks ms) = without (ks ++ [key]) ms := by
  rw [erase, without, List.filter_filter]
  refine List.filter_congr fun m _ => ?_
  by_cases h : m.1 = key <;> simp [h]

theorem lookup_without_of_not_mem {ks : List String} {key : String} (h : key ∉ ks)
    (ms : List (String × α)) : (without ks ms).lookup key = ms.lookup key := by
  induction ms with
  | nil => rfl
  | cons m ms ih =>
    by_cases hm : m.1 ∈ ks
    · have hkey : (key == m.1) = false := by
        rw [beq_eq_false_iff_ne]
        rintro rfl
        exact h hm
      rw [without, List.filter_cons_of_neg (by simpa using hm), List.lookup_cons, hkey]
      exact ih
    · rw [without, List.filter_cons_of_pos (by simpa using hm), List.lookup_cons, List.lookup_cons,
        ← without, ih]

/-- Pairs that are collected on top of members leave the members under other keys in front. -/
theorem foldl_put (ms pairs : List (String × α)) :
    pairs.foldl put ms = without (keys pairs) ms ++ ofList pairs := by
  induction pairs using List.reverseRecOn with
  | nil =>
    have hall : without [] ms = ms := List.filter_eq_self.2 fun _ _ => by simp
    rw [keys_nil, hall, ofList, List.foldl_nil, List.foldl_nil, List.append_nil]
  | append_singleton pairs m ih =>
    have hlast : ofList (pairs ++ [m]) = put (ofList pairs) m := List.foldl_append ..
    calc (pairs ++ [m]).foldl put ms
        = put (without (keys pairs) ms ++ ofList pairs) m := by rw [List.foldl_append, ih]; rfl
      _ = erase m.1 (without (keys pairs) ms) ++ put (ofList pairs) m := by
        rw [put, erase, List.filter_append, List.append_assoc]
        rfl
      _ = without (keys (pairs ++ [m])) ms ++ ofList (pairs ++ [m]) := by
        rw [erase_without, hlast, keys_append]
        rfl

theorem ofList_append (xs ys : List (String × α)) :
    ofList (xs ++ ys) = without (keys ys) (ofList xs) ++ ofList ys := by
  rw [ofList, List.foldl_append, foldl_put]
  rfl

/-- The first pairs may be collected beforehand. -/
theorem ofList_ofList_append (xs ys : List (String × α)) :
    ofList (ofList xs ++ ys) = ofList (xs ++ ys) := by
  rw [ofList_append, ofList_append, ofList_eq_self (nodup_keys_ofList xs)]

/-- The last pairs may be collected beforehand. -/
theorem ofList_append_ofList (xs ys : List (String × α)) :
    ofList (xs ++ ofList ys) = ofList (xs ++ ys) := by
  have hkeys := without_congr (collects_ofList ys).mem_keys (ofList xs)
  rw [ofList_append, ofList_append, ofList_eq_self (nodup_keys_ofList ys), hkeys]

/-! ## Members with distinct keys -/

section

variable {ms ns : List (String × α)}

theorem ofList_append_of_nodup (hms : (keys ms).Nodup) (hns : (keys ns).Nodup) :
    ofList (ms ++ ns) = without (keys ns) ms ++ ns := by
  rw [ofList_append, ofList_eq_self hms, ofList_eq_self hns]

/-- A key that is on both sides is looked up on the right. -/
theorem lookup_ofList_append (hms : (keys ms).Nodup) (hns : (keys ns).Nodup) (key : String) :
    (ofList (ms ++ ns)).lookup key = (ns.lookup key).or (ms.lookup key) := by
  rw [ofList_append_of_nodup hms hns, List.lookup_append]
  by_cases hkey : key ∈ keys ns
  · have hleft : key ∉ keys (without (keys ns) ms) := by
      rw [keys_without, List.mem_filter]
      simp [hkey]
    obtain ⟨a, ha⟩ := exists_lookup_of_mem hkey
    rw [(lookup_eq_none_iff ..).2 hleft, ha, Option.none_or, Option.some_or]
  · rw [lookup_without_of_not_mem hkey, (lookup_eq_none_iff key ns).2 hkey, Option.none_or,
      Option.or_none]

end

end Members

/-! ## Objects -/

namespace Document

open Members JsonTree.Tree

variable {p : Policy}

theorem keyed_object_append {ms ns : List (String × Document p)} (hms : (Tree.obj ms).Keyed)
    (hns : (Tree.obj ns).Keyed) : (object (ms ++ ns)).Keyed := by
  rw [Keyed, membersKeyed_iff] at hms hns
  exact keyed_gather gathers_ofList (List.forall_mem_append.2 ⟨hms.2, hns.2⟩)

/-- The second object is asked first. -/
theorem get_object_append {ms ns : List (String × Document p)} (hms : (Tree.obj ms).Keyed)
    (hns : (Tree.obj ns).Keyed) (key : String) :
    (object (ms ++ ns)).get? key =
      if (Tree.obj ns).contains key then (Tree.obj ns).get? key else (Tree.obj ms).get? key := by
  have hget : (object (ms ++ ns)).get? key = (ns.lookup key).or (ms.lookup key) :=
    lookup_ofList_append hms.1 hns.1 key
  have hcontains := (lists_obj hns.1).contains key
  by_cases hkey : key ∈ keys ns
  · obtain ⟨a, ha⟩ := exists_lookup_of_mem hkey
    rw [if_pos (hcontains.2 hkey), hget, get?, ha, Option.some_or]
  · rw [if_neg (mt hcontains.1 hkey), hget, get?, (lookup_eq_none_iff key ns).2 hkey, Option.none_or]

/-- Objects are equal exactly if they look every key up to the same value but for the order of
members. -/
theorem same_obj_iff {ms ns : List (String × Document p)} (hms : (Tree.obj ms).Keyed)
    (hns : (Tree.obj ns).Keyed) :
    same (.obj ms) (.obj ns) = true ↔
      ∀ key, (ms.lookup key).map sorted = (ns.lookup key).map sorted := by
  rw [same_iff_sorted hms hns]
  rw [Keyed] at hms hns
  exact sorted_obj_eq_iff hms.1 hns.1

/-- The order of concatenating does not matter, nor what is concatenated. -/
theorem concat_assoc (a b c : Document p) :
    (a.concat? b).bind (·.concat? c) = (b.concat? c).bind a.concat? := by
  cases a with
  | arr as =>
    cases b with
    | arr bs =>
      cases c with
      | arr cs => exact congrArg (fun ts => some (Tree.arr ts)) (List.append_assoc as bs cs)
      | _ => rfl
    | _ => cases c <;> rfl
  | obj as =>
    cases b with
    | obj bs =>
      cases c with
      | obj cs =>
        refine congrArg (fun ms => some (Tree.obj ms)) ?_
        calc ofList (ofList (as ++ bs) ++ cs)
            = ofList (as ++ bs ++ cs) := ofList_ofList_append _ cs
          _ = ofList (as ++ (bs ++ cs)) := by rw [List.append_assoc]
          _ = ofList (as ++ ofList (bs ++ cs)) := (ofList_append_ofList as _).symm
      | _ => rfl
    | _ => cases c <;> rfl
  | _ => cases b <;> cases c <;> rfl

/-- Equal objects have equal concatenations. -/
theorem same_object_append {ms ms' ns ns' : List (String × Document p)}
    (hms : (Tree.obj ms).Keyed) (hms' : (Tree.obj ms').Keyed) (hns : (Tree.obj ns).Keyed)
    (hns' : (Tree.obj ns').Keyed) (hm : same (.obj ms) (.obj ms') = true)
    (hn : same (.obj ns) (.obj ns') = true) :
    same (object (ms ++ ns)) (object (ms' ++ ns')) = true := by
  rw [same_obj_iff hms hms'] at hm
  rw [same_obj_iff hns hns'] at hn
  have hkeyed := keyed_object_append hms hns
  have hkeyed' := keyed_object_append hms' hns'
  rw [object, object, same_obj_iff hkeyed hkeyed']
  intro key
  rw [Keyed] at hms hms' hns hns'
  rw [lookup_ofList_append hms.1 hns.1, lookup_ofList_append hms'.1 hns'.1, Option.map_or,
    Option.map_or, hm key, hn key]

/-- Concatenating objects gives an object. It looks a key up in the second object if that holds the
key, and else in the first; its keys are those of the first object that the second does not hold,
then those of the second, in their orders. Concatenating is associative, the empty object changes
nothing on either side, and collecting pairs after others is concatenating what is collected from
each. Objects that are equal but for the order of members have equal concatenations. -/
theorem concat_laws (p : Policy) :
    (∀ ms ns : List (String × Document p), (Tree.obj ms).Keyed → (Tree.obj ns).Keyed →
      ∃ ks, concat? (.obj ms) (.obj ns) = some (.obj ks) ∧ (Tree.obj ks).Keyed ∧
        (∀ key, (Tree.obj ks).get? key =
          if (Tree.obj ns).contains key then (Tree.obj ns).get? key else (Tree.obj ms).get? key) ∧
        keys ks = (keys ms).filter (· ∉ keys ns) ++ keys ns) ∧
    (∀ a b c : Document p, (a.concat? b).bind (·.concat? c) = (b.concat? c).bind a.concat?) ∧
    (∀ ms : List (String × Document p), (Tree.obj ms).Keyed →
      concat? (.obj []) (.obj ms) = some (.obj ms) ∧
        concat? (.obj ms) (.obj []) = some (.obj ms)) ∧
    (∀ xs ys : List (String × Document p),
      concat? (object xs) (object ys) = some (object (xs ++ ys))) ∧
    ∀ ms ms' ns ns' : List (String × Document p), (Tree.obj ms).Keyed → (Tree.obj ms').Keyed →
      (Tree.obj ns).Keyed → (Tree.obj ns').Keyed → same (.obj ms) (.obj ms') = true →
      same (.obj ns) (.obj ns') = true →
      ∃ t t', concat? (.obj ms) (.obj ns) = some t ∧ concat? (.obj ms') (.obj ns') = some t' ∧
        same t t' = true := by
  refine ⟨fun ms ns hms hns => ?_, concat_assoc, fun ms hms => ?_, fun xs ys => ?_, ?_⟩
  · refine ⟨ofList (ms ++ ns), rfl, keyed_object_append hms hns, get_object_append hms hns, ?_⟩
    rw [ofList_append_of_nodup hms.1 hns.1, keys_append, keys_without]
  · have hself : object ms = .obj ms := congrArg Tree.obj (ofList_eq_self hms.1)
    refine ⟨congrArg some hself, ?_⟩
    rw [concat?, List.append_nil, hself]
  · -- collecting twice is collecting once, on either side
    refine congrArg (fun ms => some (Tree.obj ms)) ?_
    rw [ofList_ofList_append, ofList_append_ofList]
  · intro ms ms' ns ns' hms hms' hns hns' hm hn
    exact ⟨_, _, rfl, rfl, same_object_append hms hms' hns hns' hm hn⟩

/-- Members with a key that only they hold, between two that they share. -/
def leftMembers : List (String × Document .safe) :=
  [("a", .num ⟨"1"⟩), ("c", .null), ("b", .obj [("x", .null), ("y", .str "")])]

/-- The same members in another order, at both levels. -/
def leftReversed : List (String × Document .safe) :=
  [("b", .obj [("y", .str ""), ("x", .null)]), ("c", .null), ("a", .num ⟨"1"⟩)]

/-- Members that share two keys with the others, in another order and with other values. -/
def rightMembers : List (String × Document .safe) :=
  [("b", .arr []), ("d", .bool true), ("a", .str "last")]

theorem concat_laws_overlapping :
    ((Tree.obj leftMembers).Keyed ∧ (Tree.obj leftReversed).Keyed ∧
        (Tree.obj rightMembers).Keyed) ∧
      (∃ ks, concat? (.obj leftMembers) (.obj rightMembers) = some (.obj ks) ∧
        (Tree.obj ks).get? "a" = some (.str "last") ∧ (Tree.obj ks).get? "c" = some .null ∧
        keys ks = ["c", "b", "d", "a"]) ∧
      (concat? (.obj []) (.obj leftMembers) = some (.obj leftMembers)) ∧
      ∃ t t', concat? (.obj rightMembers) (.obj leftMembers) = some t ∧
        concat? (.obj rightMembers) (.obj leftReversed) = some t' ∧ same t t' = true ∧ t ≠ t' := by
  have hleft : (Tree.obj leftMembers).Keyed := by
    simp [leftMembers, Keyed, MembersKeyed, Members.keys]
  have hreversed : (Tree.obj leftReversed).Keyed := by
    simp [leftReversed, Keyed, MembersKeyed, Members.keys]
  have hright : (Tree.obj rightMembers).Keyed := by
    simp [rightMembers, Keyed, ItemsKeyed, MembersKeyed, Members.keys]
  obtain ⟨hconcat, -, hempty, -, hsame⟩ := concat_laws .safe
  obtain ⟨ks, hks, -, hget, hkeys⟩ := hconcat leftMembers rightMembers hleft hright
  obtain ⟨t, t', ht, ht', htt'⟩ := hsame rightMembers rightMembers leftMembers leftReversed hright
    hright hleft hreversed rfl rfl
  refine ⟨⟨hleft, hreversed, hright⟩, ⟨ks, hks, hget "a", hget "c", hkeys⟩, (hempty _ hleft).1,
    t, t', ht, ht', htt', ?_⟩
  rintro rfl
  have hmembers := Tree.obj.inj (Option.some.inj (ht.trans ht'.symm))
  exact absurd (congrArg keys hmembers) (by decide)

end Document

end JsonTree
