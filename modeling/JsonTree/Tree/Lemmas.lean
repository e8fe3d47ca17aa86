import JsonTree.Tree.Equality
import JsonTree.Tree.Traversal

/-!
# Trees by their items and members

- `Tree.induct`: induction on a tree, with a hypothesis for every item and for every member.
- The companions of a recursive function on items and on members, as list operations with the
  function itself.
- `Tree.Inherited`: properties that a tree hands on to what one step finds in it.
-/

namespace JsonTree.Tree

variable {ν μ : Type}

/-- Induction on a tree: a property holds of an array if it holds of its items, and of an object if
it holds of the values of its members. -/
@[elab_as_elim, induction_eliminator]
theorem induct {motive : Tree ν → Prop} (null : motive .null) (bool : ∀ b, motive (.bool b))
    (str : ∀ s, motive (.str s)) (num : ∀ n, motive (.num n))
    (arr : ∀ items, (∀ t ∈ items, motive t) → motive (.arr items))
    (obj : ∀ members, (∀ m ∈ members, motive m.2) → motive (.obj members)) :
    ∀ t, motive t := by
  refine @Tree.rec ν motive (fun ts => ∀ t ∈ ts, motive t) (fun ms => ∀ m ∈ ms, motive m.2)
    (fun m => motive m.2) null bool str num arr obj ?_ ?_ ?_ ?_ ?_
  · exact fun t ht => nomatch ht
  · exact fun t ts ht hts => List.forall_mem_cons.2 ⟨ht, hts⟩
  · exact fun m hm => nomatch hm
  · exact fun m ms hm hms => List.forall_mem_cons.2 ⟨hm, hms⟩
  · exact fun _ _ h => h

/-! ## Views -/

/-- The numbers of items, one item after the other. -/
theorem itemNumbers_eq_flatMap (items : List (Tree ν)) :
    itemNumbers items = items.flatMap numbers := by
  induction items with
  | nil => rfl
  | cons t ts ih => rw [itemNumbers, ih, List.flatMap_cons]

/-- The numbers of members, one value after the other; keys hold none. -/
theorem memberNumbers_eq_flatMap (members : List (String × Tree ν)) :
    memberNumbers members = members.flatMap fun m => m.2.numbers := by
  induction members with
  | nil => rfl
  | cons m ms ih => rw [memberNumbers, ih, List.flatMap_cons]

/-- A number of an array is a number of one of its items. -/
theorem mem_numbers_arr {n : ν} {items : List (Tree ν)} :
    n ∈ (arr items).numbers ↔ ∃ t ∈ items, n ∈ t.numbers := by
  rw [numbers, itemNumbers_eq_flatMap, List.mem_flatMap]

/-- A number of an object is a number of one of its values. -/
theorem mem_numbers_obj {n : ν} {members : List (String × Tree ν)} :
    n ∈ (obj members).numbers ↔ ∃ m ∈ members, n ∈ m.2.numbers := by
  rw [numbers, memberNumbers_eq_flatMap, List.mem_flatMap]

/-- The companion of `Keyed` on items asks it of each of them. -/
theorem itemsKeyed_iff (items : List (Tree ν)) : ItemsKeyed items ↔ ∀ t ∈ items, t.Keyed := by
  induction items with
  | nil => simp [ItemsKeyed]
  | cons t ts ih => simp [ItemsKeyed, ih]

/-- The companion of `Keyed` on members asks it of each value; that the keys are distinct is asked
where the object is. -/
theorem membersKeyed_iff (members : List (String × Tree ν)) :
    MembersKeyed members ↔ ∀ m ∈ members, m.2.Keyed := by
  induction members with
  | nil => simp [MembersKeyed]
  | cons m ms ih => simp [MembersKeyed, ih]

/-! ## Parts -/

/-- What holds of a tree holds of what one step finds in it. -/
def Inherited (P : Tree ν → Prop) : Prop := ∀ t s u, P t → t.step? s = some u → P u

/-- One step finds an item or the value of a member, and from a scalar it finds nothing, so these two
are all there is to hand on to. -/
theorem inherited_of_items_of_members {P : Tree ν → Prop}
    (items : ∀ ts, P (.arr ts) → ∀ t ∈ ts, P t)
    (members : ∀ ms, P (.obj ms) → ∀ m ∈ ms, P m.2) : Inherited P := by
  intro t s u ht hu
  cases t with
  | arr ts =>
    cases s with
    | key k => cases hu
    | index i => exact items ts ht u (List.mem_of_getElem? hu)
  | obj ms =>
    cases s with
    | key k =>
      obtain ⟨before, after, rfl, -⟩ := List.lookup_eq_some_iff.1 hu
      exact members _ ht (k, u) (List.mem_append_right before List.mem_cons_self)
    | index i => cases hu
  | _ => cases s <;> cases hu

/-- Keys are distinct at every level, hence in every part. -/
theorem inherited_keyed : Inherited (Keyed : Tree ν → Prop) := by
  apply inherited_of_items_of_members
  · exact fun ts h => (itemsKeyed_iff ts).1 h
  · exact fun ms h => (membersKeyed_iff ms).1 h.2

/-- The numbers of a part are among those of the tree, so what holds of all of them is handed on. -/
theorem inherited_numbers (P : ν → Prop) : Inherited fun t : Tree ν => ∀ n ∈ t.numbers, P n := by
  apply inherited_of_items_of_members
  · exact fun ts h t ht n hn => h n (mem_numbers_arr.2 ⟨t, ht, hn⟩)
  · exact fun ms h m hm n hn => h n (mem_numbers_obj.2 ⟨m, hm, hn⟩)

/-! ## Equality -/

/-- The members of one object are found in another if the key of each holds an equal value there. -/
theorem membersFoundBy_iff (eq : ν → ν → Bool) (ms ns : List (String × Tree ν)) :
    membersFoundBy eq ms ns = true ↔
      ∀ m ∈ ms, ∃ u, ns.lookup m.1 = some u ∧ eqBy eq m.2 u = true := by
  induction ms with
  | nil => simp [membersFoundBy]
  | cons m ms ih =>
    obtain ⟨k, t⟩ := m
    rw [membersFoundBy, Bool.and_eq_true, ih]
    cases h : ns.lookup k <;> simp [h]

/-! ## Traversal -/

section

variable {m : Type → Type} [Monad m] [LawfulMonad m]

/-- Traversing items is traversing one after the other, with the effects in that order. -/
theorem traverseItems_eq_mapM (gather : List (String × Tree μ) → List (String × Tree μ))
    (f : ν → m (Tree μ)) (items : List (Tree ν)) :
    traverseItems gather f items = items.mapM (traverse gather f) := by
  induction items with
  | nil => rw [traverseItems, List.mapM_nil]
  | cons t ts ih => rw [traverseItems, ih, List.mapM_cons]

/-- Traversing members is traversing one value after the other, each under its key. -/
theorem traverseMembers_eq_mapM (gather : List (String × Tree μ) → List (String × Tree μ))
    (f : ν → m (Tree μ)) (members : List (String × Tree ν)) :
    traverseMembers gather f members
      = members.mapM fun x => do return (x.1, ← traverse gather f x.2) := by
  induction members with
  | nil => rw [traverseMembers, List.mapM_nil]
  | cons x xs ih =>
    rw [traverseMembers, ih, List.mapM_cons]
    simp

end

end JsonTree.Tree
