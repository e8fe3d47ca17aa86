import JsonTree.Members.Lemmas
import JsonTree.Tree.Lemmas
import JsonTree.Logged
import Mathlib.Data.List.Forall2

/-!
# Laws of traversal

- `Tree.rebuild`: the traversal without effects, as a function on trees.
- `Tree.traverse_eq_forM`: the effects of a traversal come in document order, before a `rebuild`.
- `Tree.traverse_eq_pure`: a traversal whose effects are absent is `rebuild`.
- `Tree.value_traverse`, `Tree.records_traverse`: the value of a traversal that keeps a record is a
  `rebuild`, and its records are those of the numbers.
- `Tree.rebuild_keyed`, `Tree.rebuild_rebuild`: on keyed trees gathering changes nothing, and
  rebuilding twice is rebuilding once.
- `Tree.rebuild_eq_self_iff`: the trees that are left as they are.
- `Tree.Corresponds`: trees of one shape; rebuilding keeps the shape.
-/

namespace JsonTree.Tree

variable {ν μ : Type}

/-! ## Traversals without effects -/

section

variable (gather : List (String × Tree μ) → List (String × Tree μ)) (g : ν → Tree μ)

/-- Replaces every number by a tree. -/
def rebuild (t : Tree ν) : Tree μ := Id.run (traverse gather (fun n => pure (g n)) t)

@[simp] theorem rebuild_num (n : ν) : rebuild gather g (.num n) = g n := rfl

/-- An array is rebuilt item by item. -/
theorem rebuild_arr (items : List (Tree ν)) :
    rebuild gather g (.arr items) = .arr (items.map (rebuild gather g)) := by
  have h : Id.run (traverseItems gather (fun n => pure (g n)) items)
      = items.map (rebuild gather g) := by
    induction items with
    | nil => rfl
    | cons t ts ih => exact congrArg (rebuild gather g t :: ·) ih
  exact congrArg Tree.arr h

/-- An object is rebuilt value by value, and its members are gathered once they are all there. -/
theorem rebuild_obj (members : List (String × Tree ν)) :
    rebuild gather g (.obj members)
      = .obj (gather (members.map fun m => (m.1, rebuild gather g m.2))) := by
  have h : Id.run (traverseMembers gather (fun n => pure (g n)) members)
      = members.map fun m => (m.1, rebuild gather g m.2) := by
    induction members with
    | nil => rfl
    | cons m ms ih => exact congrArg ((m.1, rebuild gather g m.2) :: ·) ih
  exact congrArg (fun ms => Tree.obj (gather ms)) h

end

/-! ## Effects in document order -/

section

variable {m : Type → Type} [Monad m] [LawfulMonad m]
variable {gather : List (String × Tree μ) → List (String × Tree μ)}

/-- A traversal whose effects are those of single numbers has these effects in document order, and
gives the rebuilt tree. -/
theorem traverse_eq_forM {f : ν → m (Tree μ)} {effect : ν → m Unit} {g : ν → Tree μ} (t : Tree ν)
    (h : ∀ n ∈ t.numbers, f n = do effect n; return g n) :
    traverse gather f t = do forM t.numbers effect; return rebuild gather g t := by
  induction t with
  | null => rw [numbers, List.forM_nil, pure_bind]; rfl
  | bool b => rw [numbers, List.forM_nil, pure_bind]; rfl
  | str s => rw [numbers, List.forM_nil, pure_bind]; rfl
  | num n =>
    rw [traverse, h n (by simp [numbers]), numbers]
    simp
  | arr items ih =>
    -- the numbers of an array are those of its items in order, and so are the effects
    have hitems : items.mapM (traverse gather f) = do
        forM (items.flatMap numbers) effect
        return items.map (rebuild gather g) := by
      rw [numbers, itemNumbers_eq_flatMap] at h
      induction items with
      | nil => simp
      | cons t ts ih' =>
        rw [List.forall_mem_cons] at ih
        rw [List.flatMap_cons, List.forall_mem_append] at h
        rw [List.mapM_cons, ih.1 h.1, ih' ih.2 h.2, List.flatMap_cons, List.forM_append]
        simp
    rw [traverse, traverseItems_eq_mapM, hitems, rebuild_arr, numbers, itemNumbers_eq_flatMap]
    simp
  | obj members ih =>
    have hmembers : (members.mapM fun x => do return (x.1, ← traverse gather f x.2)) = do
        forM (members.flatMap fun x => x.2.numbers) effect
        return members.map fun x => (x.1, rebuild gather g x.2) := by
      rw [numbers, memberNumbers_eq_flatMap] at h
      induction members with
      | nil => simp
      | cons x xs ih' =>
        rw [List.forall_mem_cons] at ih
        rw [List.flatMap_cons, List.forall_mem_append] at h
        rw [List.mapM_cons, ih.1 h.1, ih' ih.2 h.2, List.flatMap_cons, List.forM_append]
        simp
    rw [traverse, traverseMembers_eq_mapM, hmembers, rebuild_obj, numbers,
      memberNumbers_eq_flatMap]
    simp

/-- A traversal that has no effect at any number has none at all. -/
theorem traverse_eq_pure {f : ν → m (Tree μ)} {g : ν → Tree μ} (t : Tree ν)
    (h : ∀ n ∈ t.numbers, f n = pure (g n)) :
    traverse gather f t = pure (rebuild gather g t) := by
  have hsilent : ∀ ns : List ν, forM ns (fun _ => (pure () : m Unit)) = pure () := by
    intro ns
    induction ns with
    | nil => rw [List.forM_nil]
    | cons n ns ih => rw [List.forM_cons, pure_bind, ih]
  have heffect : ∀ n ∈ t.numbers, f n = do (fun _ => (pure () : m Unit)) n; return g n := by
    intro n hn
    rw [h n hn, pure_bind]
  rw [traverse_eq_forM t heffect, hsilent, pure_bind]

end

/-- Rebuilding only looks at the numbers of the tree. -/
theorem rebuild_congr {gather : List (String × Tree μ) → List (String × Tree μ)}
    {f g : ν → Tree μ} {t : Tree ν} (h : ∀ n ∈ t.numbers, f n = g n) :
    rebuild gather f t = rebuild gather g t :=
  traverse_eq_pure (m := Id) t fun n hn => congrArg pure (h n hn)

/-- A traversal that keeps a record makes the records of the numbers, and gives the rebuilt tree. -/
theorem traverse_logged (gather : List (String × Tree μ) → List (String × Tree μ))
    (f : ν → Logged (Tree μ)) (t : Tree ν) :
    traverse gather f t = do
      forM t.numbers fun n => (⟨(), (f n).records⟩ : Logged Unit)
      return rebuild gather (fun n => (f n).value) t := by
  apply traverse_eq_forM
  intro n _
  exact Logged.ext rfl (List.append_nil _).symm

/-- The value of a traversal does not depend on what is recorded. -/
theorem value_traverse (gather : List (String × Tree μ) → List (String × Tree μ))
    (f : ν → Logged (Tree μ)) (t : Tree ν) :
    (traverse gather f t).value = rebuild gather (fun n => (f n).value) t := by
  rw [traverse_logged]
  rfl

/-- The records of a traversal are those of its numbers in document order: the shape of the tree adds
none. -/
theorem records_traverse (gather : List (String × Tree μ) → List (String × Tree μ))
    (f : ν → Logged (Tree μ)) (t : Tree ν) :
    (traverse gather f t).records = t.numbers.flatMap fun n => (f n).records := by
  rw [traverse_logged, Logged.records_bind, Logged.records_forM, Logged.records_pure,
    List.append_nil]

/-! ## Rebuilding -/

section

variable {gather : List (String × Tree μ) → List (String × Tree μ)} {g : ν → Tree μ}

/-- Rebuilding the values leaves the keys alone. -/
theorem keys_map_rebuild (members : List (String × Tree ν)) :
    Members.keys (members.map fun m => (m.1, rebuild gather g m.2)) = Members.keys members := by
  simp [Members.keys]

/-- On a keyed tree, gathering that keeps distinct keys as they are changes nothing. -/
theorem rebuild_keyed (hgather : ∀ ms, (Members.keys ms).Nodup → gather ms = ms) {t : Tree ν}
    (h : t.Keyed) : rebuild gather g t = rebuild id g t := by
  induction t with
  | null => rfl
  | bool b => rfl
  | str s => rfl
  | num n => rfl
  | arr items ih =>
    rw [Keyed, itemsKeyed_iff] at h
    rw [rebuild_arr, rebuild_arr, List.map_congr_left fun t ht => ih t ht (h t ht)]
  | obj members ih =>
    rw [Keyed, membersKeyed_iff] at h
    have hmap : (members.map fun m => (m.1, rebuild gather g m.2))
        = members.map fun m => (m.1, rebuild id g m.2) :=
      List.map_congr_left fun m hm => by rw [ih m hm (h.2 m hm)]
    rw [rebuild_obj, rebuild_obj, hgather _ (by rw [keys_map_rebuild]; exact h.1), hmap, id]

end

/-! ## What rebuilding keeps -/

/-- The numbers of the rebuilt tree are the images of the numbers, in the same order. -/
theorem numbers_rebuild (f : ν → μ) (t : Tree ν) :
    (rebuild id (fun n => .num (f n)) t).numbers = t.numbers.map f := by
  induction t with
  | null => rfl
  | bool b => rfl
  | str s => rfl
  | num n => rfl
  | arr items ih =>
    rw [rebuild_arr, numbers, numbers, itemNumbers_eq_flatMap, itemNumbers_eq_flatMap,
      List.flatMap_map, List.map_flatMap, List.flatMap_def, List.flatMap_def,
      List.map_congr_left ih]
  | obj members ih =>
    rw [rebuild_obj, id, numbers, numbers, memberNumbers_eq_flatMap, memberNumbers_eq_flatMap,
      List.flatMap_map, List.map_flatMap, List.flatMap_def, List.flatMap_def,
      List.map_congr_left ih]

section

variable {f : ν → Tree μ}

/-- No key is repeated if no image of a number repeats one. -/
theorem keyed_rebuild (hf : ∀ n, (f n).Keyed) {t : Tree ν} (h : t.Keyed) :
    (rebuild id f t).Keyed := by
  induction t with
  | null => trivial
  | bool b => trivial
  | str s => trivial
  | num n => exact hf n
  | arr items ih =>
    rw [Keyed, itemsKeyed_iff] at h
    rw [rebuild_arr, Keyed, itemsKeyed_iff, List.forall_mem_map]
    intro t ht
    exact ih t ht (h t ht)
  | obj members ih =>
    rw [Keyed, membersKeyed_iff] at h
    rw [rebuild_obj, id, Keyed, membersKeyed_iff, keys_map_rebuild, List.forall_mem_map]
    refine ⟨h.1, ?_⟩
    intro m hm
    exact ih m hm (h.2 m hm)

mutual

/-- Numbers that are replaced by scalars add no level. -/
theorem nesting_rebuild (hf : ∀ n, (f n).nesting = 0) :
    ∀ t : Tree ν, (rebuild id f t).nesting = t.nesting
  | .null => rfl
  | .bool _ => rfl
  | .str _ => rfl
  | .num n => hf n
  | .arr items => by rw [rebuild_arr, nesting, nesting, itemNesting_rebuild hf items]
  | .obj members => by rw [rebuild_obj, id, nesting, nesting, memberNesting_rebuild hf members]

theorem itemNesting_rebuild (hf : ∀ n, (f n).nesting = 0) :
    ∀ items : List (Tree ν), itemNesting (items.map (rebuild id f)) = itemNesting items
  | [] => rfl
  | t :: ts => by
    rw [List.map_cons, itemNesting, itemNesting, nesting_rebuild hf t, itemNesting_rebuild hf ts]

theorem memberNesting_rebuild (hf : ∀ n, (f n).nesting = 0) :
    ∀ members : List (String × Tree ν),
      memberNesting (members.map fun m => (m.1, rebuild id f m.2)) = memberNesting members
  | [] => rfl
  | (_, t) :: ms => by
    rw [List.map_cons, memberNesting, memberNesting, nesting_rebuild hf t,
      memberNesting_rebuild hf ms]

end

end

/-- Rebuilding twice is rebuilding once. -/
theorem rebuild_rebuild {κ : Type} (f : ν → Tree κ) (g : κ → Tree μ) (t : Tree ν) :
    rebuild id g (rebuild id f t) = rebuild id (fun n => rebuild id g (f n)) t := by
  induction t with
  | null => rfl
  | bool b => rfl
  | str s => rfl
  | num n => rfl
  | arr items ih =>
    rw [rebuild_arr, rebuild_arr, rebuild_arr, List.map_map]
    exact congrArg _ (List.map_congr_left fun t ht => ih t ht)
  | obj members ih =>
    rw [rebuild_obj, rebuild_obj, rebuild_obj, id, id, List.map_map]
    exact congrArg _ (List.map_congr_left fun m hm => congrArg (m.1, ·) (ih m hm))

/-- Putting every number in its own place changes nothing. -/
theorem rebuild_num_self (t : Tree ν) : rebuild id .num t = t := by
  induction t with
  | null => rfl
  | bool b => rfl
  | str s => rfl
  | num n => rfl
  | arr items ih =>
    rw [rebuild_arr]
    exact congrArg _ ((List.map_congr_left fun t ht => ih t ht).trans (List.map_id items))
  | obj members ih =>
    rw [rebuild_obj]
    exact congrArg _ ((List.map_congr_left fun m hm => congrArg (m.1, ·) (ih m hm)).trans
      (List.map_id members))

/-- A tree is its own rebuilding exactly if each of its numbers is put in its own place. -/
theorem rebuild_eq_self_iff {f : ν → ν} {t : Tree ν} :
    rebuild id (fun n => .num (f n)) t = t ↔ ∀ n ∈ t.numbers, f n = n := by
  constructor
  · intro h
    have hnumbers := numbers_rebuild f t
    rw [h] at hnumbers
    exact List.map_inj_left.1 (hnumbers.symm.trans (List.map_id _).symm)
  · intro h
    rw [rebuild_congr fun n hn => congrArg Tree.num (h n hn), rebuild_num_self]

/-! ## Trees of one shape -/

/-- The trees have one shape: the same scalars, items in the same order, the same keys in the same
order, and in the place of each number something that `R` relates to it. -/
inductive Corresponds (R : ν → Tree μ → Prop) : Tree ν → Tree μ → Prop
  | null : Corresponds R .null .null
  | bool (b : Bool) : Corresponds R (.bool b) (.bool b)
  | str (s : String) : Corresponds R (.str s) (.str s)
  | num {n : ν} {u : Tree μ} (h : R n u) : Corresponds R (.num n) u
  | arr {ts : List (Tree ν)} {us : List (Tree μ)} (h : List.Forall₂ (Corresponds R) ts us) :
    Corresponds R (.arr ts) (.arr us)
  | obj {ms : List (String × Tree ν)} {ns : List (String × Tree μ)}
    (keys : Members.keys ns = Members.keys ms)
    (h : List.Forall₂ (Corresponds R) (ms.map Prod.snd) (ns.map Prod.snd)) :
    Corresponds R (.obj ms) (.obj ns)

/-- Rebuilding keeps the shape. -/
theorem corresponds_rebuild {R : ν → Tree μ → Prop} {g : ν → Tree μ} {t : Tree ν}
    (h : ∀ n ∈ t.numbers, R n (g n)) : Corresponds R t (rebuild id g t) := by
  induction t with
  | null => exact .null
  | bool b => exact .bool b
  | str s => exact .str s
  | num n => exact .num (h n List.mem_cons_self)
  | arr items ih =>
    rw [rebuild_arr]
    refine .arr (List.forall₂_map_right_iff.2 (List.forall₂_same.2 ?_))
    intro t ht
    exact ih t ht fun n hn => h n (mem_numbers_arr.2 ⟨t, ht, hn⟩)
  | obj members ih =>
    rw [rebuild_obj]
    refine .obj (keys_map_rebuild members) ?_
    rw [id, List.map_map, List.forall₂_map_left_iff, List.forall₂_map_right_iff,
      List.forall₂_same]
    intro m hm
    exact ih m hm fun n hn => h n (mem_numbers_obj.2 ⟨m, hm, hn⟩)

end JsonTree.Tree
