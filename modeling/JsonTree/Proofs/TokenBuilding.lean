import JsonTree.JsonText.Builder
import JsonTree.Proofs.Traversal

/-!
# Tokens build the tree that they were written from

The tokens of a tree, read by the builder in front of any other tokens, leave the tree behind as a
complete value: objects gathered anew, numbers replaced by what their tokens stand for.

- `Builder.Scalar`: the tokens that are values by themselves.
- `Builder.State.builds`: the tokens of a tree build the tree, whatever follows them.
- `Datum.ofTokens_tokens`: the datum of the tokens of a tree.
- `Token.nesting_tokens`: the tokens of a tree nest as deep as the tree.
-/

namespace JsonTree

namespace Builder

/-- A token that is a value by itself. -/
inductive Scalar : Token → Datum → Prop where
  | null : Scalar .null .null
  | bool (b : Bool) : Scalar (.bool b) (.bool b)
  | str (s : String) : Scalar (.str s) (.str s)
  | num (m : MachineNumber) : Scalar (.num m) (.num m)

theorem Scalar.open_eq {token : Token} {d : Datum} (h : Scalar token d) (frames : List Frame) :
    State.open? frames token = some ⟨frames, .after d⟩ := by
  cases h with
  | _ => rfl

theorem Scalar.nesting_cons {token : Token} {d : Datum} (h : Scalar token d)
    (rest : List Token) : Token.nesting (token :: rest) = Token.nesting rest := by
  cases h with
  | _ => rfl

/-! ## Building a tree from its tokens -/

namespace State

open JsonTree.Tree

variable {ν : Type} {leaf : ν → Token} {g : ν → Datum}

/-- The tokens of a value begin with a token that opens a value. -/
theorem exists_tokens_eq_cons (hleaf : ∀ n, Scalar (leaf n) (g n)) (t : Tree ν)
    (rest : List Token) :
    ∃ token more, token ≠ .closeArray ∧ t.tokens leaf rest = token :: more := by
  cases t with
  | num n =>
    refine ⟨leaf n, rest, ?_, rfl⟩
    intro hclose
    have hscalar := hleaf n
    rw [hclose] at hscalar
    cases hscalar
  | null => exact ⟨.null, rest, by simp, rfl⟩
  | bool b => exact ⟨.bool b, rest, by simp, rfl⟩
  | str s => exact ⟨.str s, rest, by simp, rfl⟩
  | arr items => exact ⟨.openArray, _, by simp, rfl⟩
  | obj members => exact ⟨.openObject, _, by simp, rfl⟩

/-- Where an array may end, a value is read as elsewhere. -/
theorem foldlM_firstItem (hleaf : ∀ n, Scalar (leaf n) (g n)) (t : Tree ν) (rest : List Token)
    (frames : List Frame) :
    (t.tokens leaf rest).foldlM step? ⟨frames, .firstItem⟩
      = (t.tokens leaf rest).foldlM step? ⟨frames, .value⟩ := by
  obtain ⟨token, more, hclose, heq⟩ := exists_tokens_eq_cons hleaf t rest
  have hstep : step? ⟨frames, .firstItem⟩ token = step? ⟨frames, .value⟩ token := by
    cases token with
    | closeArray => exact absurd rfl hclose
    | _ => rfl
  rw [heq, List.foldlM_cons, List.foldlM_cons, hstep]

/-- The tokens of a tree build the tree, whatever follows them. -/
def Builds (leaf : ν → Token) (g : ν → Datum) (t : Tree ν) : Prop :=
  ∀ (rest : List Token) (frames : List Frame),
    (t.tokens leaf rest).foldlM step? ⟨frames, .value⟩
      = rest.foldlM step? ⟨frames, .after (rebuild Members.ofSets g t)⟩

/-- The tokens of items, behind items that are complete, build the array of them all. -/
theorem foldlM_itemTokens {items : List (Tree ν)} (hne : items ≠ [])
    (hbuilds : ∀ t ∈ items, Builds leaf g t) (rest : List Token) (frames : List Frame)
    (done : List Datum) :
    (itemTokens leaf items (.closeArray :: rest)).foldlM step? ⟨.items done :: frames, .value⟩
      = rest.foldlM step?
        ⟨frames, .after (.arr (done.reverse ++ items.map (rebuild Members.ofSets g)))⟩ := by
  induction items generalizing done with
  | nil => exact absurd rfl hne
  | cons t ts ih =>
    rw [List.forall_mem_cons] at hbuilds
    cases ts with
    | nil =>
      rw [itemTokens, hbuilds.1]
      show rest.foldlM step?
        ⟨frames, .after (.arr (rebuild Members.ofSets g t :: done).reverse)⟩ = _
      rw [List.reverse_cons]
      rfl
    | cons u us =>
      rw [itemTokens, hbuilds.1]
      show (itemTokens leaf (u :: us) (.closeArray :: rest)).foldlM step?
        ⟨.items (rebuild Members.ofSets g t :: done) :: frames, .value⟩ = _
      rw [ih (List.cons_ne_nil u us) hbuilds.2, List.reverse_cons, List.append_assoc]
      rfl

/-- The tokens of members, behind members that are complete, build the object of them all. -/
theorem foldlM_memberTokens {members : List (String × Tree ν)} (hne : members ≠ [])
    (hbuilds : ∀ m ∈ members, Builds leaf g m.2) (rest : List Token) (frames : List Frame)
    {phase : Phase} {done : List (String × Datum)}
    (hphase : phase = .key done ∨ phase = .firstKey ∧ done = []) :
    (memberTokens leaf members (.closeObject :: rest)).foldlM step? ⟨frames, phase⟩
      = rest.foldlM step? ⟨frames, .after (Datum.object (done.reverse ++
        members.map fun m => (m.1, rebuild Members.ofSets g m.2)))⟩ := by
  induction members generalizing phase done with
  | nil => exact absurd rfl hne
  | cons m ms ih =>
    obtain ⟨key, t⟩ := m
    rw [List.forall_mem_cons] at hbuilds
    -- the key and the colon put the value under the key, in either phase
    have hkey : ∀ more : List Token,
        (.str key :: .colon :: more : List Token).foldlM step? ⟨frames, phase⟩
          = more.foldlM step? ⟨.members done key :: frames, .value⟩ := by
      intro more
      rcases hphase with rfl | ⟨rfl, rfl⟩
      · rfl
      · rfl
    rw [memberTokens, hkey, hbuilds.1]
    cases ms with
    | nil =>
      show rest.foldlM step?
        ⟨frames, .after (Datum.object ((key, rebuild Members.ofSets g t) :: done).reverse)⟩ = _
      rw [List.reverse_cons]
      rfl
    | cons m' ms' =>
      show (memberTokens leaf (m' :: ms') (.closeObject :: rest)).foldlM step?
        ⟨frames, .key ((key, rebuild Members.ofSets g t) :: done)⟩ = _
      rw [ih (List.cons_ne_nil m' ms') hbuilds.2 (Or.inl rfl), List.reverse_cons,
        List.append_assoc]
      rfl

/-- The tokens of a tree build the tree. -/
theorem builds (hleaf : ∀ n, Scalar (leaf n) (g n)) (t : Tree ν) : Builds leaf g t := by
  intro rest frames
  induction t generalizing rest frames with
  | null => rfl
  | bool b => rfl
  | str s => rfl
  | num n =>
    show open? frames (leaf n) >>= _ = _
    rw [(hleaf n).open_eq]
    rfl
  | arr items ih =>
    cases items with
    | nil => rfl
    | cons t ts =>
      show (itemTokens leaf (t :: ts) (.closeArray :: rest)).foldlM step?
        ⟨.items [] :: frames, .firstItem⟩ = _
      -- the first item cannot close the array
      rw [itemTokens, foldlM_firstItem hleaf, ← itemTokens,
        foldlM_itemTokens (List.cons_ne_nil t ts) ih, rebuild_arr]
      rfl
  | obj members ih =>
    cases members with
    | nil => rfl
    | cons m ms =>
      show (memberTokens leaf (m :: ms) (.closeObject :: rest)).foldlM step?
        ⟨frames, .firstKey⟩ = _
      rw [foldlM_memberTokens (List.cons_ne_nil m ms) ih rest frames (Or.inr ⟨rfl, rfl⟩),
        rebuild_obj]
      rfl

end State

end Builder

/-- The datum of the tokens of a tree. -/
theorem Datum.ofTokens_tokens {ν : Type} {leaf : ν → Token} {g : ν → Datum}
    (hleaf : ∀ n, Builder.Scalar (leaf n) (g n)) (t : Tree ν) :
    Datum.ofTokens? (t.tokens leaf []) = some (t.rebuild Members.ofSets g) := by
  unfold Datum.ofTokens? Builder.State.start
  rw [Builder.State.builds hleaf t]
  rfl

/-! ## How deep tokens nest -/

namespace Token

open JsonTree.Tree

variable {ν : Type} {leaf : ν → Token} {g : ν → Datum}

mutual

/-- The tokens of a tree nest as deep as the tree. -/
theorem nesting_tokens (hleaf : ∀ n, Builder.Scalar (leaf n) (g n)) :
    ∀ (t : Tree ν) (rest : List Token),
      nesting (t.tokens leaf rest) = max t.nesting (nesting rest)
  | .null, rest => (Nat.zero_max _).symm
  | .bool b, rest => (Nat.zero_max _).symm
  | .str s, rest => (Nat.zero_max _).symm
  | .num n, rest => by
    rw [tokens, (hleaf n).nesting_cons]
    exact (Nat.zero_max _).symm
  | .arr items, rest => by
    show nesting (itemTokens leaf items (.closeArray :: rest)) + 1 = _
    rw [nesting_itemTokens hleaf items]
    show max (itemNesting items) (nesting rest - 1) + 1 = max (itemNesting items + 1) (nesting rest)
    omega
  | .obj members, rest => by
    show nesting (memberTokens leaf members (.closeObject :: rest)) + 1 = _
    rw [nesting_memberTokens hleaf members]
    show max (memberNesting members) (nesting rest - 1) + 1
      = max (memberNesting members + 1) (nesting rest)
    omega

theorem nesting_itemTokens (hleaf : ∀ n, Builder.Scalar (leaf n) (g n)) :
    ∀ (items : List (Tree ν)) (rest : List Token),
      nesting (itemTokens leaf items rest) = max (itemNesting items) (nesting rest)
  | [], rest => (Nat.zero_max _).symm
  | t :: ts, rest => by
    have hnext : nesting (if ts.isEmpty then rest else .comma :: itemTokens leaf ts rest)
        = max (itemNesting ts) (nesting rest) := by
      cases ts with
      | nil => exact (Nat.zero_max _).symm
      | cons u us => exact nesting_itemTokens hleaf (u :: us) rest
    rw [itemTokens, nesting_tokens hleaf t, hnext, itemNesting, Nat.max_assoc]

theorem nesting_memberTokens (hleaf : ∀ n, Builder.Scalar (leaf n) (g n)) :
    ∀ (members : List (String × Tree ν)) (rest : List Token),
      nesting (memberTokens leaf members rest) = max (memberNesting members) (nesting rest)
  | [], rest => (Nat.zero_max _).symm
  | (key, t) :: ms, rest => by
    have hnext : nesting (if ms.isEmpty then rest else .comma :: memberTokens leaf ms rest)
        = max (memberNesting ms) (nesting rest) := by
      cases ms with
      | nil => exact (Nat.zero_max _).symm
      | cons u us => exact nesting_memberTokens hleaf (u :: us) rest
    show nesting (tokens leaf t _) = _
    rw [nesting_tokens hleaf t, hnext, memberNesting, Nat.max_assoc]

end

end Token

end JsonTree
