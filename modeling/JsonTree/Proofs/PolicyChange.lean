import JsonTree.Proofs.Soundness

/-!
# Changing the policy of a document

A document is converted by checking its numbers in document order. If no text is refused, the
document is rebuilt around the same texts; else the first refusal is the result, and what comes
after it is not looked at.

- `forM_eq_ok_iff`, `forM_eq_error_iff`: when a loop of checks succeeds, and where it stops.
- `Number.under`: the same text under another policy.
- `Document.convert_eq`: a conversion is a loop of checks, then a rebuilding.
- `Document.convert_unchecked`: the conversion that cannot fail.
- `Document.convert_self`, `Document.Sound.toSafe_toUnchecked`: a sound document is kept by a
  conversion to its own policy, and by the way to the unchecked documents and back.
- `Document.toSafe_exact`: what becomes of an unchecked document that shall be a safe one.
-/

namespace JsonTree

/-! ## Loops of checks -/

section

variable {ε α : Type} {check : α → Except ε Unit}

theorem forM_eq_ok_iff (as : List α) :
    forM as check = .ok () ↔ ∀ a ∈ as, check a = .ok () := by
  induction as with
  | nil => exact ⟨fun _ => List.forall_mem_nil _, fun _ => rfl⟩
  | cons a as ih =>
    rw [List.forM_cons, List.forall_mem_cons, ← ih]
    cases check a with
    | ok u => exact ⟨fun h => ⟨rfl, h⟩, fun h => h.2⟩
    | error e => exact ⟨fun h => (nomatch h), fun h => (nomatch h.1)⟩

/-- A loop of checks stops at the first refusal; what follows may be anything. -/
theorem forM_eq_error_iff (as : List α) (e : ε) :
    forM as check = .error e ↔ ∃ before a after, as = before ++ a :: after ∧
      (∀ b ∈ before, check b = .ok ()) ∧ check a = .error e := by
  constructor
  · intro h
    induction as with
    | nil => cases h
    | cons a as ih =>
      rw [List.forM_cons] at h
      cases ha : check a with
      | error e' =>
        rw [ha] at h
        exact ⟨[], a, as, rfl, List.forall_mem_nil _, ha.trans h⟩
      | ok u =>
        rw [ha] at h
        obtain ⟨before, b, after, rfl, hbefore, hb⟩ := ih h
        exact ⟨a :: before, b, after, rfl, List.forall_mem_cons.2 ⟨ha, hbefore⟩, hb⟩
  · rintro ⟨before, a, after, rfl, hbefore, ha⟩
    have hok : forM before check = .ok () := (forM_eq_ok_iff before).2 hbefore
    rw [List.forM_append, hok, List.forM_cons, ha]
    rfl

end

/-! ## The same texts under another policy -/

/-- The same text under another policy, unchecked. -/
def Number.under {p : Policy} (q : Policy) (n : Number p) : Number q := ⟨n.text⟩

namespace Document

open JsonTree.Tree

variable {p q : Policy}

/-- The same document but for the policy of its numbers: each text is kept. -/
def SameTexts (t : Document p) (u : Document q) : Prop :=
  Corresponds (fun n u => ∃ k : Number q, u = .num k ∧ k.text = n.text) t u

theorem sameTexts_rebuild (t : Document p) :
    SameTexts t (rebuild id (fun n => .num (n.under q)) t) :=
  corresponds_rebuild fun n _ => ⟨n.under q, rfl, rfl⟩

/-- Changing the policy back gives the same document. -/
theorem rebuild_under_under (q : Policy) (t : Document p) :
    rebuild id (fun n => .num (n.under p)) (rebuild id (fun n => .num (n.under q)) t) = t :=
  (rebuild_rebuild ..).trans (rebuild_num_self t)

/-- A conversion checks the numbers in document order, then rebuilds the document. -/
theorem convert_eq (q : Policy) (t : Document p) :
    convert q t = do
      forM t.numbers fun n => q.checkText n.text
      return rebuild Members.ofList (fun n => .num (n.under q)) t := by
  apply traverse_eq_forM
  intro n _
  unfold Number.recheck Number.ofText
  cases q.checkText n.text with
  | ok u => rfl
  | error e => rfl

theorem exists_convert_iff (q : Policy) (t : Document p) :
    (∃ u, convert q t = .ok u) ↔ ∀ n ∈ t.numbers, q.checkText n.text = .ok () := by
  rw [← forM_eq_ok_iff, convert_eq]
  cases forM t.numbers fun n => q.checkText n.text with
  | ok u => exact ⟨fun _ => rfl, fun _ => ⟨_, rfl⟩⟩
  | error e => exact ⟨fun ⟨_, h⟩ => (nomatch h), fun h => (nomatch h)⟩

/-- A conversion fails with the first refusal in document order. -/
theorem convert_eq_error_iff (q : Policy) (t : Document p) (e : NumberError) :
    convert q t = .error e ↔ ∃ before n after, t.numbers = before ++ n :: after ∧
      (∀ k ∈ before, q.checkText k.text = .ok ()) ∧ q.checkText n.text = .error e := by
  rw [← forM_eq_error_iff, convert_eq]
  cases forM t.numbers fun n => q.checkText n.text with
  | ok u => exact ⟨fun h => (nomatch h), fun h => (nomatch h)⟩
  | error e' =>
    exact ⟨fun h => congrArg Except.error (Except.error.inj h),
      fun h => congrArg Except.error (Except.error.inj h)⟩

/-- If no text is refused, the document is the same under the other policy. -/
theorem convert_of_accepted (q : Policy) {t : Document p} (hkeyed : t.Keyed)
    (h : ∀ n ∈ t.numbers, q.checkText n.text = .ok ()) :
    convert q t = .ok (rebuild id (fun n => .num (n.under q)) t) := by
  rw [convert_eq, (forM_eq_ok_iff t.numbers).2 h, rebuild_keyed (fun _ => Members.ofList_eq_self)
    hkeyed]
  rfl

/-- What a conversion makes is the same document under the other policy. -/
theorem eq_of_convert {t : Document p} {u : Document q} (hkeyed : t.Keyed)
    (h : convert q t = .ok u) : u = rebuild id (fun n => .num (n.under q)) t := by
  have haccepted := (exists_convert_iff q t).1 ⟨u, h⟩
  rw [convert_of_accepted q hkeyed haccepted] at h
  exact (Except.ok.inj h).symm

/-- A sound document is its own conversion. -/
theorem convert_self {t : Document p} (h : t.Sound) : convert p t = .ok t := by
  rw [convert_of_accepted p h.keyed h.numbers]
  exact congrArg _ (rebuild_num_self t)

/-! ## Between the two policies -/

theorem value_toSafe (t : Document .unchecked) : t.toSafe.value = convert .safe t := by
  unfold toSafe
  cases convert .safe t with
  | ok u => rfl
  | error e => rfl

/-- Giving up the promise is a conversion that cannot fail. -/
theorem convert_unchecked (t : Document .safe) : convert .unchecked t = .ok t.toUnchecked :=
  traverse_eq_pure t fun _ _ => rfl

/-- Giving up the promise and taking it up again changes nothing. -/
theorem Sound.toSafe_toUnchecked {t : Document .safe} (h : t.Sound) :
    t.toUnchecked.toSafe = .silent (.ok t) := by
  have haccepted : ∀ n ∈ t.toUnchecked.numbers, Policy.checkText .safe n.text = .ok () := by
    rw [toUnchecked_eq h.keyed, numbers_rebuild, List.forall_mem_map]
    exact h.numbers
  have hconvert := convert_of_accepted .safe (toUnchecked_sound h).keyed haccepted
  have hback : rebuild id (fun n => .num (n.under .safe)) t.toUnchecked = t := by
    rw [toUnchecked_eq h.keyed]
    exact rebuild_under_under .unchecked t
  unfold toSafe
  rw [hconvert, hback]
  rfl

/-- Taking up the promise and giving it up again changes nothing. -/
theorem toUnchecked_of_convert {t : Document .unchecked} {u : Document .safe} (hkeyed : t.Keyed)
    (h : convert .safe t = .ok u) : u.toUnchecked = t := by
  rw [toUnchecked_eq (convert_sound .safe t u h).keyed, eq_of_convert hkeyed h]
  exact rebuild_under_under .safe t

/-- An unchecked document becomes a safe one exactly if every number in it, at any depth, has a text
that is accepted, and the safe document is the same with the same texts; else the first refusal in
document order is the result. What is safe already survives the way to the unchecked documents and
back, and a sound document is kept by a conversion to its own policy. -/
theorem toSafe_exact (t : Document .unchecked) :
    ((∃ u, t.toSafe.value = .ok u) ↔ ∀ n ∈ t.numbers, Numeral.check n.text = .ok ()) ∧
      (t.Keyed → ∀ u, t.toSafe.value = .ok u →
        u.Sound ∧ SameTexts t u ∧ u.toUnchecked = t) ∧
      (∀ e, t.toSafe.value = .error e ↔ ∃ before n after, t.numbers = before ++ n :: after ∧
        (∀ k ∈ before, Numeral.check k.text = .ok ()) ∧ Numeral.check n.text = .error e) ∧
      (∀ u : Document .safe, u.Sound → u.toUnchecked.toSafe.value = .ok u) ∧
      ∀ (p : Policy) (u : Document p), u.Sound → convert p u = .ok u := by
  rw [value_toSafe]
  refine ⟨exists_convert_iff .safe t, ?_, convert_eq_error_iff .safe t, ?_, ?_⟩
  · intro hkeyed u hu
    refine ⟨convert_sound .safe t u hu, ?_, toUnchecked_of_convert hkeyed hu⟩
    rw [eq_of_convert hkeyed hu]
    exact sameTexts_rebuild t
  · intro u hu
    rw [hu.toSafe_toUnchecked]
    rfl
  · exact fun _ _ hu => convert_self hu

/-- Spellings that are kept as they are, under keys and in an array. -/
def spelledOut : Document .unchecked :=
  .obj [("b", .arr [.num ⟨"1.50"⟩, .str "1.50"]), ("a", .num ⟨"0E+400"⟩)]

/-- An accepted number, then three that are refused, each for another reason. -/
def spoiled : Document .unchecked :=
  .arr [.num ⟨"-0"⟩, .obj [("b", .arr [.null, .num ⟨"007"⟩]), ("a", .num ⟨"1e400"⟩)], .num ⟨""⟩]

theorem toSafe_exact_spelledOut :
    spoiled.toSafe.value = .error (.leadingZero "007") ∧ spelledOut.Keyed ∧
      ∃ u, spelledOut.toSafe.value = .ok u ∧ u.Sound ∧ SameTexts spelledOut u ∧
        u.toUnchecked = spelledOut ∧ u.toUnchecked.toSafe.value = .ok u ∧
          convert .safe u = .ok u := by
  have hkeyed : spelledOut.Keyed := by
    simp [spelledOut, Keyed, ItemsKeyed, MembersKeyed, Members.keys]
  have haccepted : ∀ n ∈ spelledOut.numbers, Numeral.check n.text = .ok () := by decide +kernel
  have hrefused : ∃ before n after, spoiled.numbers = before ++ n :: after ∧
      (∀ k ∈ before, Numeral.check k.text = .ok ()) ∧
        Numeral.check n.text = .error (.leadingZero "007") :=
    ⟨[⟨"-0"⟩], ⟨"007"⟩, [⟨"1e400"⟩, ⟨""⟩], rfl, by decide +kernel, by decide +kernel⟩
  obtain ⟨u, hu⟩ := (toSafe_exact spelledOut).1.2 haccepted
  obtain ⟨hsound, hsame, hback⟩ := (toSafe_exact spelledOut).2.1 hkeyed u hu
  obtain ⟨-, -, herror, hagain, hself⟩ := toSafe_exact spoiled
  exact ⟨(herror _).2 hrefused, hkeyed, u, hu, hsound, hsame, hback, hagain u hsound,
    hself .safe u hsound⟩

end Document

end JsonTree
