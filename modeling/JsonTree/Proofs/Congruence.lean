import JsonTree.Proofs.Lookup
import JsonTree.Proofs.Rearrangement

/-!
# Conversions of equal documents

Equality of documents tolerates members in another order at every level, and so does everything that
is made of equal documents: their data, what is made of those, their parts, and the documents under
another policy. All of it rests on sorting: a conversion of a sorted tree is the sorted conversion of
the tree. The other way round, documents of data are equal only if the data are the same number by
number, with floats that agree in their bits.

- `Tree.sorted_rebuild`, `Tree.step_sorted`, `Tree.mem_numbers_sorted`: sorting commutes with
  rebuilding and with lookup, and keeps the numbers.
- `Tree.eqBy_mono`: a coarser equality of numbers gives a coarser equality of trees.
- `MachineNumber.sameBits`: equality of kind and of bits; `MachineNumber.sameBits_iff`.
- `Document.same_rebuild`, `Document.same_ofDatum_iff`: equality of what is rebuilt.
- `Document.same_congruence`: equality under all conversions.
-/

namespace JsonTree

namespace Members

variable {α β : Type}

/-- Sorting the members moves none away from its key. -/
theorem keepsLookup_sort : KeepsLookup (@sort α) := by
  intro ms hms
  have hsort : (keys (sort ms)).Nodup := ((sort_perm ms).map Prod.fst).nodup_iff.2 hms
  exact (perm_iff_lookup hsort hms).1 (sort_perm ms)

/-- Sorting looks at the keys only. -/
theorem sort_map_snd (f : α → β) (ms : List (String × α)) :
    (sort ms).map (fun m => (m.1, f m.2)) = sort (ms.map fun m => (m.1, f m.2)) :=
  List.map_mergeSort fun _ _ _ _ => rfl

end Members

namespace Tree

variable {ν μ : Type}

/-! ## Sorting and the other functions on trees -/

/-- A tree with nothing below it is sorted. -/
theorem Leaf.sorted {t : Tree ν} (h : t.Leaf) : t.sorted = t := by
  cases t with
  | arr items =>
    cases items with
    | nil => rfl
    | cons t ts => cases h (.index 0)
  | obj members =>
    cases members with
    | nil => rw [sorted_obj, List.map_nil, Members.sort, List.mergeSort_nil]
    | cons m ms =>
      have hfound : (m :: ms).lookup m.1 = some m.2 := by rw [List.lookup_cons, beq_self_eq_true]
      cases hfound.symm.trans (h (.key m.1))
  | _ => rfl

/-- Sorting what is rebuilt is rebuilding what is sorted. -/
theorem sorted_rebuild {f : ν → Tree μ} (hf : ∀ n, (f n).Leaf) (t : Tree ν) :
    (rebuild id f t).sorted = rebuild id f t.sorted := by
  induction t with
  | num n => exact (hf n).sorted
  | arr items ih =>
    rw [rebuild_arr, sorted_arr, sorted_arr, rebuild_arr, List.map_map, List.map_map]
    exact congrArg Tree.arr (List.map_congr_left ih)
  | obj members ih =>
    have hvalues : (members.map fun m => (m.1, (rebuild id f m.2).sorted))
        = members.map fun m => (m.1, rebuild id f m.2.sorted) :=
      List.map_congr_left fun m hm => congrArg (m.1, ·) (ih m hm)
    calc (rebuild id f (.obj members)).sorted
        = .obj (Members.sort (members.map fun m => (m.1, (rebuild id f m.2).sorted))) := by
          rw [rebuild_obj, sorted_obj, id, List.map_map]
          rfl
      _ = .obj (Members.sort (members.map fun m => (m.1, rebuild id f m.2.sorted))) := by
          rw [hvalues]
      _ = rebuild id f (Tree.obj members).sorted := by
          rw [sorted_obj, rebuild_obj, id, Members.sort_map_snd, List.map_map]
          rfl
  | _ => rfl

/-- Lookup in a sorted tree finds the sorted part. -/
theorem step_sorted {t : Tree ν} (h : t.Keyed) (s : PathStep) :
    t.sorted.step? s = (t.step? s).map sorted :=
  step_rebuild Members.keepsLookup_sort leaf_num h s

theorem mem_numbers_sorted {n : ν} {t : Tree ν} : n ∈ t.sorted.numbers ↔ n ∈ t.numbers := by
  induction t with
  | arr items ih =>
    simp only [sorted_arr, mem_numbers_arr, List.mem_map, exists_exists_and_eq_and]
    exact exists_congr fun t => and_congr_right (ih t)
  | obj members ih =>
    have hperm := Members.sort_perm (members.map fun m => (m.1, m.2.sorted))
    simp only [sorted_obj, mem_numbers_obj, hperm.mem_iff, List.mem_map, exists_exists_and_eq_and]
    exact exists_congr fun m => and_congr_right (ih m)
  | _ => rfl

/-! ## Coarser comparisons -/

section

variable {eq eq' : ν → ν → Bool}

theorem itemsEqBy_mono {ts us : List (Tree ν)}
    (h : ∀ t ∈ ts, ∀ u, eqBy eq t u = true → eqBy eq' t u = true)
    (hts : itemsEqBy eq ts us = true) : itemsEqBy eq' ts us = true := by
  induction ts generalizing us with
  | nil =>
    cases us with
    | nil => rfl
    | cons u us => cases hts
  | cons t ts ih =>
    cases us with
    | nil => cases hts
    | cons u us =>
      rw [List.forall_mem_cons] at h
      rw [itemsEqBy, Bool.and_eq_true] at hts ⊢
      exact ⟨h.1 u hts.1, ih h.2 hts.2⟩

/-- A coarser equality of numbers gives a coarser equality of trees. -/
theorem eqBy_mono (h : ∀ m n, eq m n = true → eq' m n = true) {t u : Tree ν}
    (htu : eqBy eq t u = true) : eqBy eq' t u = true := by
  induction t generalizing u with
  | num m =>
    cases u with
    | num n => exact h m n htu
    | _ => cases htu
  | arr ts ih =>
    cases u with
    | arr us => exact itemsEqBy_mono (fun t ht _ => ih t ht) htu
    | _ => cases htu
  | obj ms ih =>
    cases u with
    | obj ns =>
      rw [eqBy, Bool.and_eq_true, membersFoundBy_iff] at htu ⊢
      refine ⟨htu.1, fun m hm => ?_⟩
      obtain ⟨u, hlookup, hu⟩ := htu.2 m hm
      exact ⟨u, hlookup, ih m hm hu⟩
    | _ => cases htu
  | _ => cases u <;> exact htu

end

end Tree

/-! ## Machine numbers by their bits -/

theorem Binary64.toBits_finite_inj {x y : Finite64}
    (h : (Binary64.finite x).toBits = (Binary64.finite y).toBits) : x = y := by
  have hbound : infinityRank < 2 ^ 63 := by decide
  have hx := x.rank_lt
  have hy := y.rank_lt
  have hxneg := x.neg.toNat_le
  have hyneg := y.neg.toNat_le
  rw [← UInt64.toNat_inj] at h
  unfold toBits at h
  simp only [Nat.toUInt64_eq, UInt64.toNat_ofNat', natPow_eq] at h
  -- the sign is the bit above the rank
  have hneg : x.neg.toNat = y.neg.toNat := by omega
  have hrank : x.rank = y.rank := by omega
  have hsign : x.neg = y.neg := by
    revert hneg
    cases x.neg <;> cases y.neg <;> decide
  obtain ⟨xneg, xrank, _⟩ := x
  obtain ⟨yneg, yrank, _⟩ := y
  rw [Finite64.mk.injEq]
  exact ⟨hsign, hrank⟩

namespace MachineNumber

/-- Equality of kind and of bits. -/
def sameBits : MachineNumber → MachineNumber → Bool
  | .int m, .int n => m.val == n.val
  | .float x, .float y => (Binary64.finite x).toBits == (Binary64.finite y).toBits
  | _, _ => false

/-- Equality of bits is equality: of the kind, of the integer, and of the sign of a zero. -/
theorem sameBits_iff (m n : MachineNumber) : sameBits m n = true ↔ m = n := by
  constructor
  · intro h
    cases m with
    | int i =>
      cases n with
      | int j => exact congrArg int (MachineInt.eq_of_val_eq (beq_iff_eq.1 h))
      | float y => cases h
    | float x =>
      cases n with
      | int j => cases h
      | float y => exact congrArg float (Binary64.toBits_finite_inj (beq_iff_eq.1 h))
  · rintro rfl
    cases m with
    | int i => exact beq_self_eq_true i.val
    | float x => exact beq_self_eq_true (Binary64.finite x).toBits

/-- Equality of bits is finer than numeric equality, which takes the two zeros for one. -/
theorem numEq_of_sameBits (m n : MachineNumber) (h : sameBits m n = true) : numEq m n = true := by
  obtain rfl := (sameBits_iff m n).1 h
  cases m with
  | int i => exact beq_self_eq_true i.val
  | float x => simp [numEq, Finite64.numEq]

end MachineNumber

/-! ## Data -/

/-- Equality up to the order of members; floats by their bits. -/
def Datum.sameBits (v w : Datum) : Bool := Tree.eqBy MachineNumber.sameBits v w

namespace Datum

open JsonTree.Tree

variable {v w : Datum}

theorem sameBits_iff_sorted (hv : v.Keyed) (hw : w.Keyed) :
    v.sameBits w = true ↔ v.sorted = w.sorted := eqBy_iff_sorted MachineNumber.sameBits_iff hv hw

theorem same_of_sameBits (h : v.sameBits w = true) : v.same w = true :=
  eqBy_mono MachineNumber.numEq_of_sameBits h

end Datum

/-! ## Documents -/

namespace Document

open JsonTree.Tree

variable {p q : Policy}

/-- What is found by looking equal documents up is equal, or nothing is found in both. -/
theorem same_step {a b : Document p} (ha : a.Keyed) (hb : b.Keyed) (h : same a b = true)
    (s : PathStep) : Option.Rel (fun t u => same t u = true) (a.step? s) (b.step? s) := by
  have hsorted : (a.step? s).map sorted = (b.step? s).map sorted := by
    rw [← step_sorted ha, ← step_sorted hb, (same_iff_sorted ha hb).1 h]
  cases hfound : a.step? s with
  | none =>
    rw [hfound] at hsorted
    rw [Option.map_eq_none_iff.1 hsorted.symm]
    exact .none
  | some t =>
    rw [hfound] at hsorted
    obtain ⟨u, hu, htu⟩ := Option.map_eq_some_iff.1 hsorted.symm
    rw [hu]
    have htKeyed := inherited_keyed a s t ha hfound
    have huKeyed := inherited_keyed b s u hb hu
    exact .some ((same_iff_sorted htKeyed huKeyed).2 htu.symm)

/-- Equal documents are rebuilt to equal documents. -/
theorem same_rebuild {ν : Type} {f : ν → Document q} (hf : ∀ n, (f n).Leaf)
    (hkeyed : ∀ n, (f n).Keyed) {t u : Tree ν} (ht : t.Keyed) (hu : u.Keyed)
    (h : t.sorted = u.sorted) : same (rebuild id f t) (rebuild id f u) = true := by
  rw [same_iff_sorted (keyed_rebuild hkeyed ht) (keyed_rebuild hkeyed hu), sorted_rebuild hf,
    sorted_rebuild hf, h]

theorem sorted_toDatum {t : Document p} (h : t.Keyed) :
    t.toDatum.value.sorted = rebuild id Number.datum t.sorted := by
  rw [toDatum_value_keyed h, sorted_rebuild Number.leaf_datum]

/-- Equal documents have equal data. -/
theorem same_toDatum {a b : Document p} (ha : a.Keyed) (hb : b.Keyed) (h : same a b = true) :
    Datum.sameBits a.toDatum.value b.toDatum.value = true := by
  rw [Datum.sameBits_iff_sorted (keyed_toDatum ha) (keyed_toDatum hb), sorted_toDatum ha,
    sorted_toDatum hb, (same_iff_sorted ha hb).1 h]

/-- Documents of data are equal exactly if the data are, with floats that agree in their bits. -/
theorem same_ofDatum_iff {v w : Datum} (hv : v.Keyed) (hw : w.Keyed) {t u : Document p}
    (ht : ofDatum p v = .ok t) (hu : ofDatum p w = .ok u) :
    same t u = true ↔ v.sameBits w = true := by
  rw [Datum.sameBits_iff_sorted hv hw]
  rw [ofDatum_keyed p hv] at ht
  rw [ofDatum_keyed p hw] at hu
  obtain rfl := Except.ok.inj ht
  obtain rfl := Except.ok.inj hu
  have hleaf : ∀ m, Leaf (.num (Number.spelled p m)) := fun m => leaf_num _
  have hkeyed : ∀ m, Keyed (.num (Number.spelled p m)) := fun _ => trivial
  constructor
  · intro h
    rw [same_iff_sorted (keyed_rebuild hkeyed hv) (keyed_rebuild hkeyed hw), sorted_rebuild hleaf,
      sorted_rebuild hleaf] at h
    -- the datum of the document of a datum is that datum
    have hback := congrArg (rebuild id Number.datum) h
    rwa [rebuild_datum_spelled, rebuild_datum_spelled] at hback
  · exact same_rebuild hleaf hkeyed hv hw

/-- Equal documents are both converted to equal documents, or both refused. -/
theorem same_convert {a b : Document p} (ha : a.Keyed) (hb : b.Keyed) (h : same a b = true) :
    ((∃ u, convert q a = .ok u) ↔ ∃ v, convert q b = .ok v) ∧
      ∀ u v, convert q a = .ok u → convert q b = .ok v → same u v = true := by
  have hsorted := (same_iff_sorted ha hb).1 h
  constructor
  · rw [exists_convert_iff, exists_convert_iff]
    refine forall_congr' fun n => imp_congr_left ?_
    rw [← mem_numbers_sorted, hsorted, mem_numbers_sorted]
  · intro u v hu hv
    rw [eq_of_convert ha hu, eq_of_convert hb hv]
    exact same_rebuild (fun n => leaf_num _) (fun _ => trivial) ha hb hsorted

/-- Equality is kept by all conversions: equal documents have equal data, and equal documents of
these; lookup finds equal parts in them, or nothing in both; and if they are unchecked, both become
equal safe documents or both are refused. The other way round, data have equal documents exactly if
they are the same up to the order of members with floats by their bits. So an integer and a float
never have equal documents, nor have the two zeros. -/
theorem same_congruence :
    (∀ (p : Policy) (a b : Document p), a.Keyed → b.Keyed → same a b = true →
      (Datum.same a.toDatum.value b.toDatum.value = true ∧
        Datum.same a.intoDatum.value b.intoDatum.value = true) ∧
      (∃ t u : Document p, ofDatum p a.toDatum.value = .ok t ∧ ofDatum p b.toDatum.value = .ok u ∧
        same t u = true) ∧
      (∀ key, Option.Rel (fun t u => same t u = true) (a.get? key) (b.get? key)) ∧
      ∀ index, Option.Rel (fun t u => same t u = true) (a.item? index) (b.item? index)) ∧
    (∀ a b : Document .unchecked, a.Keyed → b.Keyed → same a b = true →
      ((∃ u, a.toSafe.value = .ok u) ↔ ∃ v, b.toSafe.value = .ok v) ∧
      ∀ u v, a.toSafe.value = .ok u → b.toSafe.value = .ok v → same u v = true) ∧
    (∀ (p : Policy) (v w : Datum), v.Keyed → w.Keyed →
      ∃ t u : Document p, ofDatum p v = .ok t ∧ ofDatum p w = .ok u ∧
        (same t u = true ↔ v.sameBits w = true)) ∧
    (∀ (p : Policy) (k : MachineInt) (x : Finite64), ∃ t u : Document p,
      ofDatum p (.num (.int k)) = .ok t ∧ ofDatum p (.num (.float x)) = .ok u ∧
        same t u = false) ∧
    ∀ p : Policy, ∃ t u : Document p, ofDatum p (.num (.float (.zero false))) = .ok t ∧
      ofDatum p (.num (.float (.zero true))) = .ok u ∧ same t u = false := by
  have hnumber : ∀ m : MachineNumber, (Tree.num m).Keyed := fun _ => trivial
  refine ⟨fun p a b ha hb h => ?_, fun a b ha hb h => ?_, fun p v w hv hw => ?_, ?_, ?_⟩
  · have hbits := same_toDatum ha hb h
    have hdata := Datum.same_of_sameBits hbits
    have hfrom := ofDatum_keyed p (keyed_toDatum ha)
    have hfrom' := ofDatum_keyed p (keyed_toDatum hb)
    refine ⟨⟨hdata, ?_⟩, ⟨_, _, hfrom, hfrom', ?_⟩, fun key => same_step ha hb h (.key key),
      fun index => same_step ha hb h (.index index)⟩
    · rw [intoDatum_eq_toDatum, intoDatum_eq_toDatum]
      exact hdata
    · exact (same_ofDatum_iff (keyed_toDatum ha) (keyed_toDatum hb) hfrom hfrom').2 hbits
  · rw [value_toSafe, value_toSafe]
    exact same_convert ha hb h
  · have ht := ofDatum_keyed p hv
    have hu := ofDatum_keyed p hw
    exact ⟨_, _, ht, hu, same_ofDatum_iff hv hw ht hu⟩
  · -- an integer and a float differ as data, whatever their values
    intro p k x
    have ht := ofDatum_keyed p (hnumber (.int k))
    have hu := ofDatum_keyed p (hnumber (.float x))
    refine ⟨_, _, ht, hu, ?_⟩
    rw [Bool.eq_false_iff, Ne, same_ofDatum_iff (hnumber _) (hnumber _) ht hu]
    exact nofun
  · -- the two zeros differ in their bits
    intro p
    have ht := ofDatum_keyed p (hnumber (.float (.zero false)))
    have hu := ofDatum_keyed p (hnumber (.float (.zero true)))
    refine ⟨_, _, ht, hu, ?_⟩
    rw [Bool.eq_false_iff, Ne, same_ofDatum_iff (hnumber _) (hnumber _) ht hu]
    decide

/-- Members in one order. -/
def inOrder : Document .unchecked :=
  .obj [("a", .num ⟨"-0"⟩), ("b", .arr [.obj [("x", .num ⟨"1.50"⟩), ("y", .null)], .str "z"])]

/-- The same members in another order, at both levels. -/
def outOfOrder : Document .unchecked :=
  .obj [("b", .arr [.obj [("y", .null), ("x", .num ⟨"1.50"⟩)], .str "z"]), ("a", .num ⟨"-0"⟩)]

/-- An array of one zero. -/
def zeroDatum (neg : Bool) : Datum := .arr [.num (.float (.zero neg))]

theorem same_congruence_outOfOrder :
    (inOrder.Keyed ∧ outOfOrder.Keyed ∧ same inOrder outOfOrder = true) ∧
      Datum.same inOrder.toDatum.value outOfOrder.toDatum.value = true ∧
      Option.Rel (fun t u => same t u = true) (inOrder.get? "b") (outOfOrder.get? "b") ∧
      (∃ u v, inOrder.toSafe.value = .ok u ∧ outOfOrder.toSafe.value = .ok v ∧ same u v = true) ∧
      ((zeroDatum false).Keyed ∧ (zeroDatum true).Keyed ∧
        Datum.same (zeroDatum false) (zeroDatum true) = true) ∧
      ∃ t u : Document .safe, ofDatum .safe (zeroDatum false) = .ok t ∧
        ofDatum .safe (zeroDatum true) = .ok u ∧ same t u = false := by
  have hin : inOrder.Keyed := by
    simp [inOrder, Keyed, ItemsKeyed, MembersKeyed, Members.keys]
  have hout : outOfOrder.Keyed := by
    simp [outOfOrder, Keyed, ItemsKeyed, MembersKeyed, Members.keys]
  have hsame : same inOrder outOfOrder = true := rfl
  have hzero : ∀ neg, (zeroDatum neg).Keyed := fun _ => ⟨trivial, trivial⟩
  obtain ⟨hall, hsafe, hdata, -, -⟩ := same_congruence
  obtain ⟨⟨hdatum, -⟩, -, hget, -⟩ := hall .unchecked _ _ hin hout hsame
  obtain ⟨hboth, hequal⟩ := hsafe _ _ hin hout hsame
  have haccepted : ∀ n ∈ inOrder.numbers, Policy.checkText .safe n.text = .ok () := by
    decide +kernel
  obtain ⟨u, hu⟩ := (exists_convert_iff .safe inOrder).2 haccepted
  rw [← value_toSafe] at hu
  obtain ⟨v, hv⟩ := hboth.1 ⟨u, hu⟩
  obtain ⟨t, t', ht, ht', hiff⟩ := hdata .safe _ _ (hzero false) (hzero true)
  refine ⟨⟨hin, hout, hsame⟩, hdatum, hget "b", ⟨u, v, hu, hv, hequal u v hu hv⟩,
    ⟨hzero false, hzero true, rfl⟩, t, t', ht, ht', ?_⟩
  rw [Bool.eq_false_iff, Ne, hiff]
  decide

end Document

end JsonTree
