import JsonTree.Proofs.DataRoundTrip
import JsonTree.Proofs.PolicyChange
import JsonTree.Session

/-!
# Safe documents over whole runs

A run is any finite sequence of operations on registers: the steps of a session, and beside them the
change of policy and reading from JSON text and from data. Numbers are stored in three ways: a
checked text, the unchecked text of a float, the unchecked digits of an integer. After every run all
documents are sound, and so what is promised of the numbers in safe documents holds.

- `Operation`, `Operation.runAll`: operations, and a run of them.
- `Registers.Sound`: the invariant; `Operation.run_sound`: one operation keeps it.
- `Number.WellBehaved`: what soundness means for a number of a safe document.
- `Operation.safe_of_runAll`: after any run all of it holds of every safe document.
-/

namespace JsonTree

/-- An operation that leaves at most one value in a register; its operands are registers. -/
inductive Operation where
  | step (s : Step)
  /-- The document in a register, under policy `q`. -/
  | convert (q : Policy) (r : Nat)
  /-- The document of a JSON text. -/
  | read (p : Policy) (s : String)
  /-- The number of a JSON text. -/
  | readNumber (p : Policy) (s : String)
  /-- The document of the datum in a register, read through its tokens. -/
  | deserialize (p : Policy) (r : Nat)
  /-- The number of the datum in a register. -/
  | deserializeNumber (p : Policy) (r : Nat)

namespace Operation

/-- What an operation leaves in its register. -/
def result (regs : Registers) : Operation → Option Register
  | .step s => (s.run regs).toOption.bind Answer.register?
  | .convert q r => do
    let ⟨_, t⟩ ← (regs.document r).toOption
    let u ← (Document.convert q t).toOption
    return .document q u
  | .read p s => do
    let t ← (Document.ofJsonText p s).toOption
    return .document p t
  | .readNumber p s => do
    let n ← (Number.ofJsonText p s).toOption
    return .document p (.num n)
  | .deserialize p r => do
    let d ← (regs.datum r).toOption
    let t ← (Document.deserialize p d).toOption
    return .document p t
  | .deserializeNumber p r => do
    let d ← (regs.datum r).toOption
    let n ← (Number.deserialize p d).toOption
    return .document p (.num n)

/-- Runs an operation: its result goes into the next register. -/
def run (regs : Registers) (op : Operation) : Registers := regs ++ [op.result regs]

/-- The registers after a run that starts with none. -/
def runAll (ops : List Operation) : Registers := ops.foldl run []

/-- An operation that takes its integers from native types. -/
def Native : Operation → Prop
  | .step (.build _ recipe) => recipe.Native
  | _ => True

end Operation

/-! ## The invariant -/

/-- A document is sound; of a datum nothing is asked. -/
def Register.Sound : Register → Prop
  | .document _ t => t.Sound
  | .datum _ => True

/-- Every document in a register is sound. -/
def Registers.Sound (regs : Registers) : Prop := ∀ x, some x ∈ regs → x.Sound

/-- What an answer leaves in a register is sound. -/
def Answer.Sound (a : Answer) : Prop := ∀ x, a.register? = some x → x.Sound

/-- What must be there is there, or the step fails. -/
theorem needed_yields {α : Type} {P : α → Prop} {o : Option α} (h : ∀ a, o = some a → P a) :
    Yields (Failure.needed o) P := by
  cases o with
  | none => exact .throw
  | some a => exact .pure (h a rfl)

/-- A refusal is a failure of the step and changes no result. -/
theorem ofRefusal_yields {α : Type} {P : α → Prop} {x : Except NumberError α} (h : Yields x P) :
    Yields (Failure.ofRefusal x) P := by
  cases x with
  | error e => exact .throw
  | ok a => exact .pure (h a rfl)

/-- A document is taken from a register only under its own policy. -/
theorem Register.documentOf_sound {p : Policy} {x : Register} (h : x.Sound) {t : Document p}
    (ht : x.documentOf? p = some t) : t.Sound := by
  cases x with
  | datum d => cases ht
  | document q u =>
    unfold documentOf? at ht
    dsimp only at ht
    split at ht
    · rename_i hq
      subst hq
      obtain rfl := Option.some.inj ht
      exact h
    · cases ht

namespace Registers

variable {regs : Registers}

/-- What an operation takes from a register is what an earlier one has left there. -/
theorem held_sound (h : regs.Sound) (r : Nat) : Yields (regs.held r) Register.Sound := by
  refine needed_yields fun x hx => ?_
  exact h x (List.mem_of_getElem? (Option.join_eq_some_iff.1 hx))

/-- A document under a given policy is sound if the registers are. -/
theorem documentOf_sound (h : regs.Sound) (p : Policy) (r : Nat) :
    Yields (regs.documentOf p r) Document.Sound :=
  .bind (held_sound h r) fun _ hx => needed_yields fun _ ht => Register.documentOf_sound hx ht

/-- So is a document under the policy that it happens to have. -/
theorem document_sound (h : regs.Sound) (r : Nat) :
    Yields (regs.document r) fun x => x.2.Sound := by
  refine .bind (held_sound h r) fun x hx => ?_
  cases x with
  | document p t => exact .pure hx
  | datum d => exact .throw

/-- Members collected from registers bring sound values. -/
theorem entries_sound (h : regs.Sound) (p : Policy) (es : List (String × Nat)) :
    Yields (regs.entries p es) fun ms => ∀ m ∈ ms, m.2.Sound :=
  .mapM fun e _ => .bind (documentOf_sound h p e.2) fun _ ht => .pure ht

end Registers

/-! ## One step -/

namespace Answer

theorem sound_document {p : Policy} {t : Document p} (h : t.Sound) : (document t).Sound := by
  rintro x ⟨⟩
  exact h

/-- Data make no promise. -/
theorem sound_datum (d : Datum) : (datum d).Sound := by
  rintro x ⟨⟩
  trivial

theorem sound_found {p : Policy} {o : Option (Document p)} (h : ∀ t, o = some t → t.Sound) :
    (found o).Sound := by
  cases o with
  | none =>
    intro x hx
    cases hx
  | some t => exact sound_document (h t rfl)

/-- An answer that leaves no value. -/
theorem sound_view {a : Answer} (h : a.register? = none) : a.Sound := by
  intro x hx
  rw [h] at hx
  cases hx

end Answer

open Answer Registers

/-- One step over sound registers answers with a sound value, if with any. -/
theorem Step.run_sound {regs : Registers} (h : regs.Sound) {s : Step}
    (hs : (Operation.step s).Native) : Yields (s.run regs) Answer.Sound := by
  cases s with
  | build p recipe =>
    refine .bind (ofRefusal_yields (recipe.build_sound hs)) fun t ht => ?_
    exact .pure (sound_document ht)
  | datum d => exact .pure (sound_datum d)
  | array p items =>
    refine .bind (.mapM fun r _ => documentOf_sound h p r) fun ts hts => ?_
    exact .pure (sound_document ((Document.sound_arr_iff ts).2 hts))
  | object p entries =>
    refine .bind (entries_sound h p entries) fun ms hms => ?_
    exact .pure (sound_document (Document.object_sound hms))
  | map p entries =>
    refine .bind (entries_sound h p entries) fun ms hms => ?_
    exact .pure (sound_document (Document.sound_gather Members.gathers_ofSets hms))
  | toDatum r => exact .bind .any fun x _ => .pure (sound_datum _)
  | intoDatum r => exact .bind .any fun x _ => .pure (sound_datum _)
  | ofDatum p r =>
    refine .bind .any fun d _ => ?_
    refine .bind (ofRefusal_yields (Document.ofDatum_sound p d)) fun t ht => ?_
    exact .pure (sound_document ht)
  | toSafe r =>
    refine .bind (documentOf_sound h .unchecked r) fun t _ => ?_
    refine .bind (ofRefusal_yields t.toSafe_sound) fun u hu => ?_
    exact .pure (sound_document hu)
  | toUnchecked r =>
    refine .bind (documentOf_sound h .safe r) fun t ht => ?_
    exact .pure (sound_document (Document.toUnchecked_sound ht))
  | get r key =>
    refine .bind (document_sound h r) fun x hx => ?_
    exact .pure (sound_found fun u hu => Document.step_sound (s := .key key) hx hu)
  | item r index =>
    refine .bind (document_sound h r) fun x hx => ?_
    exact .pure (sound_found fun u hu => Document.step_sound (s := .index index) hx hu)
  | respell r =>
    refine .bind (document_sound h r) fun x _ => ?_
    refine .bind .any fun n _ => ?_
    refine .bind (ofRefusal_yields (Number.ofBinary64_sound _ _)) fun k hk => ?_
    exact .pure (sound_document (Document.sound_num hk))
  | concat r s =>
    refine .bind (document_sound h r) fun x hx => ?_
    refine .bind (documentOf_sound h x.1 s) fun u hu => ?_
    refine .bind (needed_yields fun v hv => Document.concat_sound hx hu hv) fun v hv => ?_
    exact .pure (sound_document hv)
  | reverse r =>
    refine .bind (document_sound h r) fun x hx => ?_
    refine .bind (needed_yields fun v hv => Document.reverse_sound hx hv) fun v hv => ?_
    exact .pure (sound_document hv)
  -- the other steps only look at a value
  | same r s =>
    refine .bind .any fun x _ => ?_
    cases x with
    | document p t => exact .bind .any fun u _ => .pure (sound_view rfl)
    | datum d => exact .bind .any fun e _ => .pure (sound_view rfl)
  | kind r => exact .bind .any fun x _ => .pure (sound_view rfl)
  | length r => exact .bind .any fun x _ => .pure (sound_view rfl)
  | keys r => exact .bind .any fun x _ => .pure (sound_view rfl)
  | text r => exact .bind .any fun x _ => .pure (sound_view rfl)

namespace Operation

variable {regs : Registers}

/-- What an operation over sound registers leaves is sound. -/
theorem result_sound (h : regs.Sound) {op : Operation} (hop : op.Native) :
    ∀ x, op.result regs = some x → x.Sound := by
  cases op with
  | step s => exact Yields.toOption (Step.run_sound h hop) fun a ha => ha
  | convert q r =>
    refine Yields.toOption .any fun x _ => Yields.toOption (Document.convert_sound q x.2) ?_
    rintro u hu x ⟨⟩
    exact hu
  | read p s =>
    refine Yields.toOption (Document.ofJsonText_sound p s) ?_
    rintro t ht x ⟨⟩
    exact ht
  | readNumber p s =>
    refine Yields.toOption (Number.ofJsonText_sound p s) ?_
    rintro n hn x ⟨⟩
    exact Document.sound_num hn
  | deserialize p r =>
    refine Yields.toOption .any fun d _ => Yields.toOption (Document.deserialize_sound p d) ?_
    rintro t ht x ⟨⟩
    exact ht
  | deserializeNumber p r =>
    refine Yields.toOption .any fun d _ => Yields.toOption (Number.deserialize_sound p d) ?_
    rintro n hn x ⟨⟩
    exact Document.sound_num hn

/-- One operation keeps the registers sound. -/
theorem run_sound (h : regs.Sound) {op : Operation} (hop : op.Native) : (op.run regs).Sound := by
  intro x hx
  rcases List.mem_append.1 hx with hx | hx
  · exact h x hx
  · exact result_sound h hop x (List.mem_singleton.1 hx).symm

/-- A run keeps the registers sound. -/
theorem foldl_run_sound {ops : List Operation} (hops : ∀ op ∈ ops, op.Native)
    (h : regs.Sound) : Registers.Sound (ops.foldl run regs) := by
  induction ops generalizing regs with
  | nil => exact h
  | cons op ops ih =>
    rw [List.forall_mem_cons] at hops
    rw [List.foldl_cons]
    exact ih hops.2 (run_sound h hops.1)

theorem runAll_sound {ops : List Operation} (hops : ∀ op ∈ ops, op.Native) :
    (runAll ops).Sound := by
  apply foldl_run_sound hops
  intro x hx
  cases hx

end Operation

/-! ## What soundness means for safe documents -/

/-- What is promised of a number in a safe document: its text is a JSON number with a finite
reading, it stands for a machine number without a loss, and the number made of its reading is
accepted. -/
structure Number.WellBehaved (n : Number .safe) : Prop where
  check : Numeral.check n.text = .ok ()
  isNumeral : IsNumeral n.text.toList
  wellFormed : n.isWellFormed = true
  finite : ∃ x, n.toBinary64 = .finite x
  reading : ∃ m, n.reading = .number m ∧ n.toDatum = .silent (.num m)
  respell : ∃ k, Number.ofBinary64 .safe n.toBinary64 = .ok k

namespace Number

/-- A text with a finite value reads as a machine number. -/
theorem exists_reading {p : Policy} {n : Number p} {x : Finite64} (h : n.toBinary64 = .finite x) :
    ∃ m, n.reading = .number m := by
  unfold reading
  cases n.signed?.or n.unsigned? with
  | some i => exact ⟨_, rfl⟩
  | none => exact ⟨.float x, by rw [h]⟩

/-- All that is said of a safe number follows from what its policy has checked. -/
theorem Sound.wellBehaved {n : Number .safe} (h : n.Sound) : n.WellBehaved := by
  obtain ⟨hvalidate, x, hx⟩ := (Numeral.check_eq_ok_iff n.text).1 h
  obtain ⟨m, hm⟩ := exists_reading (n := n) hx
  refine ⟨h, Numeral.isNumeral_of_validate hvalidate, (isWellFormed_iff n).2 h, ⟨x, hx⟩,
    ⟨m, hm, toDatum_of_reading hm⟩, ⟨x.canonicalText⟩, ?_⟩
  show ofBinary64 .safe (Binary64.ofText n.text) = _
  rw [hx]
  rfl

end Number

namespace Document

/-- A sound safe document loses nothing in its datum. -/
theorem Sound.records_toDatum {t : Document .safe} (h : t.Sound) : t.toDatum.records = [] := by
  rw [toDatum_eq fun n hn => ?_]
  · rfl
  · obtain ⟨m, hm, -⟩ := (h.numbers n hn).wellBehaved.reading
    exact ⟨m, hm⟩

end Document

/-- After any run of operations, every safe document in a register keeps its promise: all its
numbers are well behaved, nothing is lost in its datum, and it survives a detour through the
unchecked documents. -/
theorem Operation.safe_of_runAll {ops : List Operation} (hops : ∀ op ∈ ops, op.Native)
    {t : Document .safe} (ht : some (Register.document .safe t) ∈ runAll ops) :
    (∀ n ∈ t.numbers, n.WellBehaved) ∧ t.toDatum.records = [] ∧
      t.toUnchecked.toSafe = .silent (.ok t) := by
  have hsound : t.Sound := runAll_sound hops _ ht
  refine ⟨?_, hsound.records_toDatum, hsound.toSafe_toUnchecked⟩
  intro n hn
  exact (hsound.numbers n hn).wellBehaved

/-- The greatest integer of 128 bits and the least negative float, put into an object. -/
def Operation.storedUnchecked : List Operation :=
  [.step (.build .safe (.int (2 ^ 128 - 1))),
    .step (.build .safe (.float (.finite ⟨true, 1, by decide⟩))),
    .step (.object .safe [("integer", 0), ("float", 1)]),
    .step (.toUnchecked 2)]

/-- The numbers of that object are well behaved, though nothing has checked their texts. -/
theorem Operation.safe_of_storedUnchecked :
    (∀ op ∈ storedUnchecked, op.Native) ∧
      ∃ t : Document .safe, some (Register.document .safe t) ∈ runAll storedUnchecked ∧
        t.numbers.length = 2 ∧ (∀ n ∈ t.numbers, n.WellBehaved) ∧ t.toDatum.records = [] ∧
          t.toUnchecked.toSafe = .silent (.ok t) := by
  have hops : ∀ op ∈ storedUnchecked, op.Native := by
    simp [storedUnchecked, Native, Recipe.Native, NativeInt]
  obtain ⟨t, ht⟩ : ∃ t : Document .safe, t = .object
      [("integer", .num (.ofInt .safe (2 ^ 128 - 1))),
        ("float", .num ⟨Finite64.canonicalText ⟨true, 1, by decide⟩⟩)] := ⟨_, rfl⟩
  have hmem : some (Register.document .safe t) ∈ runAll storedUnchecked := by
    rw [ht]
    exact List.mem_of_getElem? (i := 2) rfl
  refine ⟨hops, t, hmem, ?_, safe_of_runAll hops hmem⟩
  rw [ht]
  rfl

end JsonTree
