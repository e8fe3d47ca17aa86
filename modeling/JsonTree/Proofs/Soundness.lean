import JsonTree.JsonText.Reader
import JsonTree.Members.Lemmas
import JsonTree.Proofs.MachineText
import JsonTree.Proofs.Traversal
import JsonTree.Recipe

/-!
# Documents that keep their policy's promise

A document is sound if the policy accepts the text of each of its numbers and no object in it holds
a key twice. Whatever makes a document makes a sound one.

- `Yields`: what holds of the result of a computation that may fail.
- `Number.Sound`, `Document.Sound`: the promise.
- `Document.sound_gather`: an object gathered from sound values is sound.
- `Document.traverse_sound`: a traversal is sound if it is at every number.
- `Recipe.build_sound`: a recipe with native integers makes a sound document.
- `Document.ofDatum_sound`, `Document.convert_sound`, `Document.ofJsonText_sound`: the conversions.
-/

namespace JsonTree

/-! ## Computations that may fail -/

/-- The result satisfies `P`, if there is one. -/
def Yields {ε α : Type} (x : Except ε α) (P : α → Prop) : Prop := ∀ a, x = .ok a → P a

namespace Yields

variable {ε α β : Type} {P : α → Prop} {Q : β → Prop}

/-- A computation that cannot fail yields what holds of its result. -/
theorem pure {a : α} (h : P a) : Yields (Pure.pure a : Except ε α) P := by
  rintro b ⟨⟩
  exact h

/-- A failure yields anything, since there is no result. -/
theorem throw {e : ε} : Yields (.error e : Except ε α) P := by
  rintro b ⟨⟩

theorem any {x : Except ε α} : Yields x fun _ => True := fun _ _ => trivial

/-- One computation after another: the second may rely on what the first yields. -/
theorem bind {x : Except ε α} {f : α → Except ε β} (hx : Yields x P)
    (hf : ∀ a, P a → Yields (f a) Q) : Yields (x >>= f) Q := by
  cases x with
  | error e => exact throw
  | ok a => exact hf a (hx a rfl)

/-- Going on where the failure is forgotten. -/
theorem toOption {x : Except ε α} {f : α → Option β} (hx : Yields x P)
    (hf : ∀ a, P a → ∀ b, f a = some b → Q b) : ∀ b, x.toOption >>= f = some b → Q b := by
  cases x with
  | error e =>
    rintro b ⟨⟩
  | ok a => exact hf a (hx a rfl)

/-- What each call yields holds of all results of a loop. -/
theorem mapM {f : α → Except ε β} {as : List α} (h : ∀ a ∈ as, Yields (f a) Q) :
    Yields (as.mapM f) fun bs => ∀ b ∈ bs, Q b := by
  induction as with
  | nil =>
    rw [List.mapM_nil]
    exact pure (List.forall_mem_nil _)
  | cons a as ih =>
    rw [List.forall_mem_cons] at h
    rw [List.mapM_cons]
    refine bind h.1 fun b hb => bind (ih h.2) fun bs hbs => pure ?_
    exact List.forall_mem_cons.2 ⟨hb, hbs⟩

end Yields

/-! ## Gathering members -/

/-- A way to gather members that keeps one value of every key and makes up none. -/
structure Members.Gathers {α : Type} (gather : List (String × α) → List (String × α)) : Prop where
  nodup : ∀ ms, (keys (gather ms)).Nodup
  mem : ∀ ms, ∀ m ∈ gather ms, m ∈ ms

namespace Members

variable {α : Type}

/-- A fold makes up no member if none of its steps does. -/
theorem mem_foldl {op : List (String × α) → String × α → List (String × α)}
    (hop : ∀ ms m, ∀ n ∈ op ms m, n ∈ ms ∨ n = m) {pairs : List (String × α)} :
    ∀ ms, ∀ n ∈ pairs.foldl op ms, n ∈ ms ∨ n ∈ pairs := by
  induction pairs with
  | nil => exact fun ms n hn => Or.inl hn
  | cons m pairs ih =>
    intro ms n hn
    rcases ih (op ms m) n hn with hn | hn
    · rcases hop ms m n hn with hn | rfl
      · exact Or.inl hn
      · exact Or.inr List.mem_cons_self
    · exact Or.inr (List.mem_cons_of_mem m hn)

/-- `put` keeps members or drops them, and adds its own. -/
theorem mem_put (ms : List (String × α)) (m : String × α) : ∀ n ∈ put ms m, n ∈ ms ∨ n = m := by
  intro n hn
  rcases List.mem_append.1 hn with hn | hn
  · exact Or.inl (List.mem_of_mem_filter hn)
  · exact Or.inr (List.mem_singleton.1 hn)

/-- `set` keeps members or writes over them, and adds its own. -/
theorem mem_set (ms : List (String × α)) (m : String × α) : ∀ n ∈ set ms m, n ∈ ms ∨ n = m := by
  induction ms with
  | nil => exact fun n hn => Or.inr (List.mem_singleton.1 hn)
  | cons k ks ih =>
    intro n hn
    unfold set at hn
    split at hn
    · rcases List.mem_cons.1 hn with rfl | hn
      · exact Or.inr rfl
      · exact Or.inl (List.mem_cons_of_mem k hn)
    · rcases List.mem_cons.1 hn with rfl | hn
      · exact Or.inl List.mem_cons_self
      · exact (ih n hn).imp_left (List.mem_cons_of_mem k)

/-- Documents gather their members by `ofList`. -/
theorem gathers_ofList : Gathers (@ofList α) where
  nodup := nodup_keys_ofList
  mem _ _ hm := (mem_foldl mem_put [] _ hm).resolve_left List.not_mem_nil

/-- Data, and documents made from a map, gather their members by `ofSets`. -/
theorem gathers_ofSets : Gathers (@ofSets α) where
  nodup := nodup_keys_ofSets
  mem _ _ hm := (mem_foldl mem_set [] _ hm).resolve_left List.not_mem_nil

end Members

/-! ## Sound documents -/

/-- The policy accepts the number's text. -/
def Number.Sound {p : Policy} (n : Number p) : Prop := p.checkText n.text = .ok ()

/-- The policy accepts every number, and no object holds a key twice. -/
structure Document.Sound {p : Policy} (t : Document p) : Prop where
  numbers : ∀ n ∈ t.numbers, n.Sound
  keyed : t.Keyed

namespace Document

open JsonTree.Tree

variable {p : Policy}

theorem sound_null : Sound (.null : Document p) := ⟨List.forall_mem_nil _, trivial⟩

theorem sound_bool (b : Bool) : Sound (.bool b : Document p) := ⟨List.forall_mem_nil _, trivial⟩

theorem sound_str (s : String) : Sound (.str s : Document p) := ⟨List.forall_mem_nil _, trivial⟩

/-- A number is as sound as its text. -/
theorem sound_num {n : Number p} (h : n.Sound) : Sound (.num n) :=
  ⟨fun _ hm => List.mem_singleton.1 hm ▸ h, trivial⟩

/-- An array adds nothing to what its items promise. -/
theorem sound_arr_iff (items : List (Document p)) : Sound (.arr items) ↔ ∀ t ∈ items, Sound t := by
  constructor
  · rintro ⟨hnumbers, hkeyed⟩ t ht
    exact ⟨fun n hn => hnumbers n (mem_numbers_arr.2 ⟨t, ht, hn⟩),
      (itemsKeyed_iff items).1 hkeyed t ht⟩
  · intro h
    refine ⟨fun n hn => ?_, (itemsKeyed_iff items).2 fun t ht => (h t ht).keyed⟩
    obtain ⟨t, ht, hn⟩ := mem_numbers_arr.1 hn
    exact (h t ht).numbers n hn

/-- An object adds to what its values promise that its keys are distinct. -/
theorem sound_obj_iff (members : List (String × Document p)) :
    Sound (.obj members) ↔ (Members.keys members).Nodup ∧ ∀ m ∈ members, Sound m.2 := by
  constructor
  · rintro ⟨hnumbers, hnodup, hkeyed⟩
    refine ⟨hnodup, fun m hm => ?_⟩
    exact ⟨fun n hn => hnumbers n (mem_numbers_obj.2 ⟨m, hm, hn⟩),
      (membersKeyed_iff members).1 hkeyed m hm⟩
  · rintro ⟨hnodup, h⟩
    refine ⟨fun n hn => ?_, hnodup, (membersKeyed_iff members).2 fun m hm => (h m hm).keyed⟩
    obtain ⟨m, hm, hn⟩ := mem_numbers_obj.1 hn
    exact (h m hm).numbers n hn

/-- An object gathered from sound values is sound. -/
theorem sound_gather {gather : List (String × Document p) → List (String × Document p)}
    (hgather : Members.Gathers gather) {ms : List (String × Document p)}
    (h : ∀ m ∈ ms, Sound m.2) : Sound (.obj (gather ms)) :=
  (sound_obj_iff _).2 ⟨hgather.nodup ms, fun m hm => h m (hgather.mem ms m hm)⟩

/-- Whatever the order and the number of equal keys, an object made from sound values is sound. -/
theorem object_sound {ms : List (String × Document p)} (h : ∀ m ∈ ms, Sound m.2) :
    Sound (.object ms) :=
  sound_gather Members.gathers_ofList h

/-! ## Parts of a document -/

/-- What one step finds in a sound document is sound. -/
theorem step_sound {t u : Document p} {s : PathStep} (h : t.Sound) (hu : t.step? s = some u) :
    u.Sound :=
  ⟨inherited_numbers Number.Sound t s u h.numbers hu, inherited_keyed t s u h.keyed hu⟩

/-- Two documents that are put together repeat no key, even where they share some. -/
theorem concat_sound {t u v : Document p} (ht : t.Sound) (hu : u.Sound)
    (hv : t.concat? u = some v) : v.Sound := by
  unfold concat? at hv
  split at hv
  · obtain rfl := Option.some.inj hv
    rw [sound_arr_iff, List.forall_mem_append]
    exact ⟨(sound_arr_iff _).1 ht, (sound_arr_iff _).1 hu⟩
  · obtain rfl := Option.some.inj hv
    apply object_sound
    rw [List.forall_mem_append]
    exact ⟨((sound_obj_iff _).1 ht).2, ((sound_obj_iff _).1 hu).2⟩
  · cases hv

/-- Turning a document around changes no number and repeats no key. -/
theorem reverse_sound {t u : Document p} (h : t.Sound) (hu : t.reverse? = some u) : u.Sound := by
  unfold reverse? at hu
  split at hu
  · obtain rfl := Option.some.inj hu
    rw [sound_arr_iff]
    intro t ht
    exact (sound_arr_iff _).1 h t (List.mem_reverse.1 ht)
  · obtain rfl := Option.some.inj hu
    apply object_sound
    intro m hm
    exact ((sound_obj_iff _).1 h).2 m (List.mem_reverse.1 hm)
  · cases hu

/-! ## Traversals -/

section

variable {ν ε : Type} {gather : List (String × Document p) → List (String × Document p)}
variable {f : ν → Except ε (Document p)}

mutual

/-- A traversal is sound if it is at every number. -/
theorem traverse_sound (hgather : Members.Gathers gather) (hf : ∀ n, Yields (f n) Sound) :
    ∀ t : Tree ν, Yields (traverse gather f t) Sound
  | .null => .pure sound_null
  | .bool b => .pure (sound_bool b)
  | .str s => .pure (sound_str s)
  | .num n => hf n
  | .arr items => by
    refine .bind (traverseItems_sound hgather hf items) ?_
    intro us hus
    exact .pure ((sound_arr_iff us).2 hus)
  | .obj members => by
    refine .bind (traverseMembers_sound hgather hf members) ?_
    intro us hus
    exact .pure (sound_gather hgather hus)

/-- The companion on items: every result is sound. -/
theorem traverseItems_sound (hgather : Members.Gathers gather) (hf : ∀ n, Yields (f n) Sound) :
    ∀ items : List (Tree ν), Yields (traverseItems gather f items) fun us => ∀ u ∈ us, Sound u
  | [] => .pure (List.forall_mem_nil _)
  | t :: ts => by
    refine .bind (traverse_sound hgather hf t) ?_
    intro u hu
    refine .bind (traverseItems_sound hgather hf ts) ?_
    intro us hus
    exact .pure (List.forall_mem_cons.2 ⟨hu, hus⟩)

/-- The companion on members: every value is sound; their keys are left to the gathering. -/
theorem traverseMembers_sound (hgather : Members.Gathers gather) (hf : ∀ n, Yields (f n) Sound) :
    ∀ members : List (String × Tree ν),
      Yields (traverseMembers gather f members) fun us => ∀ m ∈ us, Sound m.2
  | [] => .pure (List.forall_mem_nil _)
  | (_, t) :: ms => by
    refine .bind (traverse_sound hgather hf t) ?_
    intro u hu
    refine .bind (traverseMembers_sound hgather hf ms) ?_
    intro us hus
    exact .pure (List.forall_mem_cons.2 ⟨hu, hus⟩)

end

end

end Document

/-! ## Making numbers -/

namespace Number

variable {p : Policy}

/-- A text is held only after the policy has accepted it. -/
theorem ofText_sound (p : Policy) (text : String) : Yields (ofText p text) Sound := by
  intro n hn
  unfold ofText at hn
  cases hcheck : p.checkText text with
  | error e =>
    rw [hcheck] at hn
    cases hn
  | ok u =>
    rw [hcheck] at hn
    cases hn
    exact hcheck

/-- A float that the policy accepts is held by its canonical text, and nobody checks that text. -/
theorem ofBinary64_sound (p : Policy) (x : Binary64) : Yields (ofBinary64 p x) Sound := by
  cases p with
  | unchecked => exact fun _ _ => rfl
  | safe =>
    -- nothing has checked the text here: it keeps the rules by its spelling
    cases x with
    | finite x => exact .pure (x.check_spell .canonical)
    | nonFinite w => exact .throw

/-- An integer is held by its digits without a check: those of a native type are far below the bound
of the finite range. -/
theorem ofInt_sound (p : Policy) {n : Int} (h : NativeInt n) : (ofInt p n).Sound := by
  cases p with
  | safe => exact check_spellInt h
  | unchecked => rfl

/-- A machine number is held by its text, checked for a float and not for an integer. -/
theorem ofMachine_sound (p : Policy) (m : MachineNumber) : Yields (ofMachine p m) Sound := by
  cases m with
  | int n => exact .pure (ofInt_sound p n.nativeInt)
  | float x => exact ofText_sound p x.serializedText

end Number

/-! ## Conversions -/

namespace Document

/-- A document made from a datum holds checked numbers, and gathers its members anew. -/
theorem ofDatum_sound (p : Policy) (d : Datum) : Yields (ofDatum p d) Sound := by
  refine traverse_sound Members.gathers_ofList ?_ d
  intro m
  exact .bind (Number.ofMachine_sound p m) fun n hn => .pure (sound_num hn)

/-- A converted document is checked by the policy that it is converted to. -/
theorem convert_sound {p : Policy} (q : Policy) (t : Document p) : Yields (convert q t) Sound := by
  refine traverse_sound Members.gathers_ofList ?_ t
  intro n
  exact .bind (Number.ofText_sound q n.text) fun n hn => .pure (sound_num hn)

/-- A document that is made safe keeps the promise of the safe policy. -/
theorem toSafe_sound (t : Document .unchecked) : Yields t.toSafe.value Sound := by
  have h := convert_sound .safe t
  unfold toSafe
  cases hconvert : convert .safe t with
  | ok u => exact .pure (h u hconvert)
  | error e => exact .throw

/-- Forgetting the promise only retypes the numbers: on a keyed document no member moves. -/
theorem toUnchecked_eq {t : Document .safe} (h : t.Keyed) :
    t.toUnchecked = Tree.rebuild id (fun n => .num n.toUnchecked) t :=
  Tree.rebuild_keyed (fun _ => Members.ofList_eq_self) h

theorem toUnchecked_sound {t : Document .safe} (h : t.Sound) : t.toUnchecked.Sound := by
  rw [toUnchecked_eq h.keyed]
  exact ⟨fun _ _ => rfl,
    Tree.keyed_rebuild (f := fun n => .num n.toUnchecked) (fun _ => trivial) h.keyed⟩

end Document

/-- Wording a refusal anew changes no result. -/
theorem refusedAsData_yields {α : Type} {x : Except NumberError α} {P : α → Prop}
    (h : Yields x P) : Yields (refusedAsData x) P := by
  cases x with
  | ok a => exact .pure (h a rfl)
  | error e => exact .throw

namespace Document

/-- A document read from JSON text is made from a datum. -/
theorem ofJsonText_sound (p : Policy) (s : String) : Yields (ofJsonText p s) Sound :=
  .bind .any fun d _ => refusedAsData_yields (ofDatum_sound p d)

/-- A document read through the tokens of a datum is made from the datum that these build. -/
theorem deserialize_sound (p : Policy) (d : Datum) : Yields (deserialize p d) Sound := by
  unfold deserialize
  split
  · exact refusedAsData_yields (ofDatum_sound p _)
  · exact .throw

end Document

namespace Number

/-- A number read from JSON text is made from a machine number. -/
theorem ofJsonText_sound (p : Policy) (s : String) : Yields (ofJsonText p s) Sound := by
  intro n hn
  unfold ofJsonText at hn
  dsimp only at hn
  split at hn
  · split at hn
    · exact refusedAsData_yields (ofMachine_sound p _) n hn
    · cases hn
  all_goals cases hn

/-- A number read from a datum is made from a machine number, and no other datum is one. -/
theorem deserialize_sound (p : Policy) (d : Datum) : Yields (deserialize p d) Sound := by
  cases d with
  | num m => exact refusedAsData_yields (ofMachine_sound p m)
  | _ => exact .throw

end Number

/-! ## Recipes -/

namespace Recipe

mutual

/-- Every integer of a recipe is of a native type. -/
def Native : Recipe → Prop
  | .int n => NativeInt n
  | .arr items => ItemsNative items
  | .object pairs => PairsNative pairs
  | .map pairs => PairsNative pairs
  | .nest _ _ inner => Native inner
  | _ => True

/-- Every integer of recipes is of a native type. -/
def ItemsNative : List Recipe → Prop
  | [] => True
  | r :: rs => Native r ∧ ItemsNative rs

/-- Every integer of recipes under keys is of a native type. -/
def PairsNative : List (String × Recipe) → Prop
  | [] => True
  | (_, r) :: rs => Native r ∧ PairsNative rs

end

end Recipe

open Document

/-- An array or an object around a sound document is sound. -/
theorem Wrapping.wrap_sound {p : Policy} {t : Document p} (h : t.Sound) (kind : Wrapping) :
    Document.Sound (kind.wrap t) := by
  cases kind with
  | array => exact (sound_arr_iff [t]).2 fun u hu => List.mem_singleton.1 hu ▸ h
  | object => exact object_sound fun m hm => List.mem_singleton.1 hm ▸ h

/-- However many layers are put around a document, it stays sound. -/
theorem Wrapping.wrapAll_sound {p : Policy} (depth : Nat) (kinds : List Wrapping) {t : Document p}
    (h : t.Sound) : Document.Sound (wrapAll depth kinds t) := by
  unfold wrapAll
  induction List.range depth generalizing t with
  | nil => exact h
  | cons i is ih =>
    rw [List.foldl_cons]
    apply ih
    split
    · exact wrap_sound h _
    · exact h

namespace Recipe

variable {p : Policy}

mutual

/-- A recipe with native integers makes a sound document. -/
theorem build_sound : ∀ r : Recipe, r.Native → Yields (build p r) Sound
  | .null, _ => .pure sound_null
  | .bool b, _ => .pure (sound_bool b)
  | .str s, _ => .pure (sound_str s)
  | .numeral text, _ => .bind (Number.ofText_sound p text) fun _ hn => .pure (sound_num hn)
  | .float x, _ => .bind (Number.ofBinary64_sound p x) fun _ hn => .pure (sound_num hn)
  | .int _, h => .pure (sound_num (Number.ofInt_sound p h))
  | .datum d, _ => ofDatum_sound p d
  | .arr items, h => by
    refine .bind (buildItems_sound items h) ?_
    intro ts hts
    exact .pure ((sound_arr_iff ts).2 hts)
  | .object pairs, h => by
    refine .bind (buildPairs_sound pairs h) ?_
    intro ts hts
    exact .pure (object_sound hts)
  | .map pairs, h => by
    refine .bind (buildPairs_sound pairs h) ?_
    intro ts hts
    exact .pure (sound_gather Members.gathers_ofSets hts)
  | .nest depth kinds inner, h => by
    refine .bind (build_sound inner h) ?_
    intro t ht
    exact .pure (Wrapping.wrapAll_sound depth kinds ht)

/-- The companion on recipes of items. -/
theorem buildItems_sound : ∀ items : List Recipe, ItemsNative items →
    Yields (buildItems p items) fun ts => ∀ t ∈ ts, Sound t
  | [], _ => .pure (List.forall_mem_nil _)
  | r :: rs, h => by
    refine .bind (build_sound r h.1) ?_
    intro t ht
    refine .bind (buildItems_sound rs h.2) ?_
    intro ts hts
    exact .pure (List.forall_mem_cons.2 ⟨ht, hts⟩)

/-- The companion on recipes under keys, which may repeat. -/
theorem buildPairs_sound : ∀ pairs : List (String × Recipe), PairsNative pairs →
    Yields (buildPairs p pairs) fun ts => ∀ m ∈ ts, Sound m.2
  | [], _ => .pure (List.forall_mem_nil _)
  | (_, r) :: rs, h => by
    refine .bind (build_sound r h.1) ?_
    intro t ht
    refine .bind (buildPairs_sound rs h.2) ?_
    intro ts hts
    exact .pure (List.forall_mem_cons.2 ⟨ht, hts⟩)

end

end Recipe

end JsonTree
