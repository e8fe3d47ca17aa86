import JsonTree.Members

/-!
# Laws of members

What `put`, `set` and the two ways to collect pairs do to the keys and to lookup.

- `lookup_put`, `lookup_set`: both give the key its new value and leave the other keys alone.
- `nodup_keys_ofList`, `nodup_keys_ofSets`: collected members have distinct keys.
- `ofList_eq_self`, `ofSets_eq_self`: members that have distinct keys are collected as they are.
-/

namespace JsonTree.Members

variable {α : Type}

/-! ## Keys -/

@[simp] theorem keys_nil : keys ([] : List (String × α)) = [] := rfl

@[simp] theorem keys_cons (m : String × α) (ms : List (String × α)) :
    keys (m :: ms) = m.1 :: keys ms := rfl

@[simp] theorem keys_append (ms ns : List (String × α)) :
    keys (ms ++ ns) = keys ms ++ keys ns := by simp [keys]

/-- Erasing a key leaves the order of the others alone. -/
@[simp] theorem keys_erase (key : String) (ms : List (String × α)) :
    keys (erase key ms) = (keys ms).filter (· != key) := by
  induction ms with
  | nil => rfl
  | cons m ms ih =>
    have hm : erase key (m :: ms) = if m.1 = key then erase key ms else m :: erase key ms := by
      by_cases h : m.1 = key <;> simp [erase, h]
    by_cases h : m.1 = key <;> simp [hm, h, ih]

/-- `put` moves its key behind the others. -/
theorem keys_put (ms : List (String × α)) (m : String × α) :
    keys (put ms m) = (keys ms).filter (· != m.1) ++ [m.1] := by simp [put]

/-- `set` leaves a key that is there in its place, and puts a new one behind the others. -/
theorem keys_set (ms : List (String × α)) (m : String × α) :
    keys (set ms m) = if m.1 ∈ keys ms then keys ms else keys ms ++ [m.1] := by
  induction ms with
  | nil => simp [set]
  | cons n ns ih =>
    by_cases h : n.1 = m.1
    · simp [set, h]
    · have h' : ¬ m.1 = n.1 := fun e => h e.symm
      by_cases hm : m.1 ∈ keys ns <;> simp [set, h, h', hm, ih]

/-! ## Lookup -/

/-- Lookup fails exactly on the keys that no member has. -/
theorem lookup_eq_none_iff (key : String) (ms : List (String × α)) :
    ms.lookup key = none ↔ key ∉ keys ms := by
  induction ms with
  | nil => simp
  | cons m ms ih =>
    obtain ⟨k, a⟩ := m
    by_cases h : key = k
    · simp [h]
    · have hk : (key == k) = false := by simp [h]
      simp [List.lookup_cons, hk, h, ih]

/-- Every key of the members leads to a value. -/
theorem exists_lookup_of_mem {key : String} {ms : List (String × α)} (h : key ∈ keys ms) :
    ∃ a, ms.lookup key = some a :=
  Option.ne_none_iff_exists'.1 fun hnone => (lookup_eq_none_iff key ms).1 hnone h

/-- Erasing a key hides it from lookup, and no other key. -/
theorem lookup_erase (key key' : String) (ms : List (String × α)) :
    (erase key ms).lookup key' = if key' = key then none else ms.lookup key' := by
  induction ms with
  | nil => simp [erase]
  | cons m ms ih =>
    obtain ⟨k, a⟩ := m
    have hm : erase key ((k, a) :: ms)
        = if k = key then erase key ms else (k, a) :: erase key ms := by
      by_cases h : k = key <;> simp [erase, h]
    by_cases h : k = key
    · subst h
      rw [hm, if_pos rfl, ih]
      by_cases h' : key' = k
      · rw [if_pos h', if_pos h']
      · have hk : (key' == k) = false := by simp [h']
        rw [if_neg h', if_neg h', List.lookup_cons, hk]
    · rw [hm, if_neg h]
      by_cases h' : key' = k
      · subst h'
        simp [h]
      · have hk : (key' == k) = false := by simp [h']
        simp only [List.lookup_cons, hk, ih]

/-- After `put`, the key leads to the new value, and every other key where it led before. -/
theorem lookup_put (ms : List (String × α)) (m : String × α) (key : String) :
    (put ms m).lookup key = if key = m.1 then some m.2 else ms.lookup key := by
  obtain ⟨k, a⟩ := m
  rw [put, List.lookup_append, lookup_erase]
  by_cases h : key = k
  · simp [h]
  · have hk : (key == k) = false := by simp [h]
    simp [List.lookup_cons, hk, h]

/-- After `set`, the key leads to the new value, and every other key where it led before: the two
operations differ in the order of the keys only. -/
theorem lookup_set (ms : List (String × α)) (m : String × α) (key : String) :
    (set ms m).lookup key = if key = m.1 then some m.2 else ms.lookup key := by
  obtain ⟨k, a⟩ := m
  induction ms with
  | nil =>
    by_cases h : key = k
    · simp [set, h]
    · have hk : (key == k) = false := by simp [h]
      simp [set, List.lookup_cons, hk, h]
  | cons n ns ih =>
    obtain ⟨l, b⟩ := n
    by_cases h : l = k
    · subst h
      by_cases h' : key = l
      · simp [set, h']
      · have hk : (key == l) = false := by simp [h']
        simp [set, List.lookup_cons, hk, h']
    · by_cases h' : key = l
      · subst h'
        simp [set, h]
      · have hk : (key == l) = false := by simp [h']
        simp only [set, if_neg h, List.lookup_cons, hk, ih]

/-- A key is looked up among changed values as among the values before. -/
theorem lookup_map_snd {β : Type} (f : α → β) (ms : List (String × α)) (key : String) :
    (ms.map fun m => (m.1, f m.2)).lookup key = (ms.lookup key).map f := by
  induction ms with
  | nil => rfl
  | cons m ms ih =>
    rw [List.map_cons, List.lookup_cons, List.lookup_cons, ih]
    cases key == m.1 with
    | true => rfl
    | false => rfl

/-! ## Collected members -/

/-- `put` never repeats a key: it erases the old member first. -/
theorem nodup_keys_put {ms : List (String × α)} (h : (keys ms).Nodup) (m : String × α) :
    (keys (put ms m)).Nodup := by
  rw [keys_put, List.nodup_append]
  refine ⟨h.filter _, by simp, ?_⟩
  intro a ha b hb
  simp only [List.mem_filter, bne_iff_ne, ne_eq] at ha
  simp only [List.mem_singleton] at hb
  exact hb ▸ ha.2

/-- `set` never repeats a key: it writes over the member that it finds. -/
theorem nodup_keys_set {ms : List (String × α)} (h : (keys ms).Nodup) (m : String × α) :
    (keys (set ms m)).Nodup := by
  rw [keys_set]
  split
  · exact h
  · rename_i hm
    rw [List.nodup_append]
    refine ⟨h, by simp, ?_⟩
    intro a ha b hb
    simp only [List.mem_singleton] at hb
    exact fun e => hm (hb ▸ e ▸ ha)

/-- Members collected by an operation that repeats no key repeat no key. -/
theorem nodup_keys_foldl {op : List (String × α) → String × α → List (String × α)}
    (hop : ∀ ms m, (keys ms).Nodup → (keys (op ms m)).Nodup) (pairs : List (String × α)) :
    ∀ ms, (keys ms).Nodup → (keys (pairs.foldl op ms)).Nodup := by
  induction pairs with
  | nil => exact fun ms h => h
  | cons m pairs ih => exact fun ms h => ih _ (hop ms m h)

/-- However often the pairs name a key, the collected members have it once. -/
theorem nodup_keys_ofList (pairs : List (String × α)) : (keys (ofList pairs)).Nodup :=
  nodup_keys_foldl (fun _ m h => nodup_keys_put h m) pairs [] (by simp)

theorem nodup_keys_ofSets (pairs : List (String × α)) : (keys (ofSets pairs)).Nodup :=
  nodup_keys_foldl (fun _ m h => nodup_keys_set h m) pairs [] (by simp)

/-- A new key is put behind the members, with nothing erased. -/
theorem put_of_not_mem {ms : List (String × α)} {m : String × α} (h : m.1 ∉ keys ms) :
    put ms m = ms ++ [m] := by
  have he : erase m.1 ms = ms := by
    rw [erase, List.filter_eq_self]
    intro n hn
    have hk : n.1 ∈ keys ms := List.mem_map_of_mem hn
    simp only [bne_iff_ne, ne_eq]
    exact fun e => h (e ▸ hk)
  rw [put, he]

/-- A new key is set behind the members, as `put` does it. -/
theorem set_of_not_mem {ms : List (String × α)} {m : String × α} (h : m.1 ∉ keys ms) :
    set ms m = ms ++ [m] := by
  induction ms with
  | nil => rfl
  | cons n ns ih =>
    simp only [keys_cons, List.mem_cons, not_or] at h
    rw [set, if_neg fun e => h.1 e.symm, ih h.2, List.cons_append]

/-- While no key comes back, collecting is appending; the members collected so far are part of the
statement, since the keys must be new to them, too. -/
theorem foldl_eq_append {op : List (String × α) → String × α → List (String × α)}
    (hop : ∀ ms m, m.1 ∉ keys ms → op ms m = ms ++ [m]) (pairs : List (String × α)) :
    ∀ ms, (keys (ms ++ pairs)).Nodup → pairs.foldl op ms = ms ++ pairs := by
  induction pairs with
  | nil => simp
  | cons m pairs ih =>
    intro ms h
    have hm : m.1 ∉ keys ms := by
      simp only [keys_append, keys_cons, List.nodup_append] at h
      exact fun hmem => h.2.2 m.1 hmem m.1 (by simp) rfl
    have happ : ms ++ m :: pairs = (ms ++ [m]) ++ pairs := by simp
    rw [List.foldl_cons, hop ms m hm, happ]
    exact ih _ (happ ▸ h)

/-- Members that have distinct keys are collected as they are. -/
theorem ofList_eq_self {ms : List (String × α)} (h : (keys ms).Nodup) : ofList ms = ms :=
  foldl_eq_append (fun _ _ => put_of_not_mem) ms [] h

/-- Members that have distinct keys are collected as they are. -/
theorem ofSets_eq_self {ms : List (String × α)} (h : (keys ms).Nodup) : ofSets ms = ms :=
  foldl_eq_append (fun _ _ => set_of_not_mem) ms [] h

end JsonTree.Members
