import JsonTree.Proofs.Soundness
import JsonTree.Proofs.TokenBuilding

/-!
# What the builder makes

Whatever tokens the builder reads, the datum that comes out has distinct keys and nests no deeper
than the tokens do.

- `Builder.Moves`: the moves of the builder, a rule for each; `Builder.moves_of_step`: its steps are
  among them.
- `Builder.State.depth`: how many brackets are open.
- `Builder.State.Fits`: the invariant, that everything complete is keyed and stays below a limit.
- `Builder.State.fits_of_foldlM`: a run keeps it, if the tokens stay below the limit.
- `Datum.fits_of_ofTokens`: what the invariant says of the datum.
-/

namespace JsonTree

namespace Builder

/-! ## The moves -/

/-- The phases in which a value may start. -/
def StartsValue (phase : Phase) : Prop := phase = .value ∨ phase = .firstItem

/-- The moves of the builder. -/
inductive Moves : State → Token → State → Prop where
  | scalar {frames : List Frame} {phase : Phase} {token : Token} {d : Datum}
      (starts : StartsValue phase) (isScalar : Scalar token d) :
      Moves ⟨frames, phase⟩ token ⟨frames, .after d⟩
  | openArray {frames : List Frame} {phase : Phase} (starts : StartsValue phase) :
      Moves ⟨frames, phase⟩ .openArray ⟨.items [] :: frames, .firstItem⟩
  | openObject {frames : List Frame} {phase : Phase} (starts : StartsValue phase) :
      Moves ⟨frames, phase⟩ .openObject ⟨frames, .firstKey⟩
  | emptyArray (frames : List Frame) :
      Moves ⟨frames, .firstItem⟩ .closeArray ⟨frames.tail, .after (.arr [])⟩
  | emptyObject (frames : List Frame) :
      Moves ⟨frames, .firstKey⟩ .closeObject ⟨frames, .after (Datum.object [])⟩
  | firstKey (frames : List Frame) (key : String) :
      Moves ⟨frames, .firstKey⟩ (.str key) ⟨frames, .colon [] key⟩
  | key (frames : List Frame) (done : List (String × Datum)) (key : String) :
      Moves ⟨frames, .key done⟩ (.str key) ⟨frames, .colon done key⟩
  | colon (frames : List Frame) (done : List (String × Datum)) (key : String) :
      Moves ⟨frames, .colon done key⟩ .colon ⟨.members done key :: frames, .value⟩
  | nextItem (frames : List Frame) (done : List Datum) (d : Datum) :
      Moves ⟨.items done :: frames, .after d⟩ .comma ⟨.items (d :: done) :: frames, .value⟩
  | closeArray (frames : List Frame) (done : List Datum) (d : Datum) :
      Moves ⟨.items done :: frames, .after d⟩ .closeArray
        ⟨frames, .after (.arr (d :: done).reverse)⟩
  | nextMember (frames : List Frame) (done : List (String × Datum)) (key : String) (d : Datum) :
      Moves ⟨.members done key :: frames, .after d⟩ .comma ⟨frames, .key ((key, d) :: done)⟩
  | closeObject (frames : List Frame) (done : List (String × Datum)) (key : String) (d : Datum) :
      Moves ⟨.members done key :: frames, .after d⟩ .closeObject
        ⟨frames, .after (Datum.object ((key, d) :: done).reverse)⟩

/-- Where a value may start, a token that starts one makes a move. -/
theorem moves_of_open {frames : List Frame} {phase : Phase} {token : Token} {s : State}
    (hphase : StartsValue phase) (h : State.open? frames token = some s) :
    Moves ⟨frames, phase⟩ token s := by
  cases token with
  | null =>
    obtain rfl := Option.some.inj h
    exact .scalar hphase .null
  | bool b =>
    obtain rfl := Option.some.inj h
    exact .scalar hphase (.bool b)
  | str t =>
    obtain rfl := Option.some.inj h
    exact .scalar hphase (.str t)
  | num m =>
    obtain rfl := Option.some.inj h
    exact .scalar hphase (.num m)
  | openArray =>
    obtain rfl := Option.some.inj h
    exact .openArray hphase
  | openObject =>
    obtain rfl := Option.some.inj h
    exact .openObject hphase
  | _ => cases h

/-- Behind a value, what the innermost frame takes from a token is a move. -/
theorem moves_of_continue {frames : List Frame} {d : Datum} {token : Token} {s : State}
    (h : State.continue? d frames token = some s) : Moves ⟨frames, .after d⟩ token s := by
  unfold State.continue? at h
  split at h
  · obtain rfl := Option.some.inj h
    exact .nextItem _ _ _
  · obtain rfl := Option.some.inj h
    exact .closeArray _ _ _
  · obtain rfl := Option.some.inj h
    exact .nextMember _ _ _ _
  · obtain rfl := Option.some.inj h
    exact .closeObject _ _ _ _
  · cases h

/-- Every step of the builder is one of its moves. -/
theorem moves_of_step {s s' : State} {token : Token} (h : s.step? token = some s') :
    Moves s token s' := by
  obtain ⟨frames, phase⟩ := s
  -- each phase takes one kind of token, and the rest is refused
  cases phase with
  | value => exact moves_of_open (Or.inl rfl) h
  | firstItem =>
    cases token with
    | closeArray =>
      obtain rfl := Option.some.inj h
      exact .emptyArray frames
    | _ => exact moves_of_open (Or.inr rfl) h
  | firstKey =>
    cases token with
    | closeObject =>
      obtain rfl := Option.some.inj h
      exact .emptyObject frames
    | str key =>
      obtain rfl := Option.some.inj h
      exact .firstKey frames key
    | _ => cases h
  | key done =>
    cases token with
    | str key =>
      obtain rfl := Option.some.inj h
      exact .key frames done key
    | _ => cases h
  | colon done key =>
    cases token with
    | colon =>
      obtain rfl := Option.some.inj h
      exact .colon frames done key
    | _ => cases h
  | after d => exact moves_of_continue h

/-! ## Depth -/

/-- How many brackets are open. -/
def State.depth (s : State) : Nat :=
  match s.phase with
  | .value => s.frames.length
  | .firstItem => s.frames.tail.length + 1
  | .firstKey => s.frames.length + 1
  | .key _ => s.frames.length + 1
  | .colon _ _ => s.frames.length + 1
  | .after _ => s.frames.length

/-- Where a value may start, every frame has its open bracket. -/
theorem depth_of_startsValue {frames : List Frame} {phase : Phase} (h : StartsValue phase) :
    frames.length ≤ State.depth ⟨frames, phase⟩ := by
  rcases h with rfl | rfl
  · exact Nat.le_refl _
  · show frames.length ≤ frames.tail.length + 1
    rw [List.length_tail]
    omega

/-- Brackets that are open and brackets that are to come make up the nesting of the tokens. -/
theorem Moves.depth_add_nesting_le {s s' : State} {token : Token} (h : Moves s token s')
    (tokens : List Token) :
    s'.depth + Token.nesting tokens ≤ s.depth + Token.nesting (token :: tokens) := by
  cases h with
  -- a scalar opens no bracket and closes none
  | scalar starts isScalar =>
    rw [isScalar.nesting_cons]
    exact Nat.add_le_add_right (depth_of_startsValue starts) _
  | @openArray frames phase starts =>
    have hdepth : frames.length ≤ State.depth ⟨frames, phase⟩ := depth_of_startsValue starts
    show frames.length + 1 + Token.nesting tokens ≤ _ + (Token.nesting tokens + 1)
    omega
  | @openObject frames phase starts =>
    have hdepth : frames.length ≤ State.depth ⟨frames, phase⟩ := depth_of_startsValue starts
    show frames.length + 1 + Token.nesting tokens ≤ _ + (Token.nesting tokens + 1)
    omega
  -- a bracket that closes takes the depth back that it was given
  | emptyArray frames =>
    show frames.tail.length + _ ≤ frames.tail.length + 1 + (Token.nesting tokens - 1)
    omega
  | emptyObject frames =>
    show frames.length + _ ≤ frames.length + 1 + (Token.nesting tokens - 1)
    omega
  | firstKey => exact Nat.le_refl _
  | key => exact Nat.le_refl _
  | colon => exact Nat.le_refl _
  | nextItem => exact Nat.le_refl _
  | closeArray frames =>
    show frames.length + _ ≤ frames.length + 1 + (Token.nesting tokens - 1)
    omega
  | nextMember => exact Nat.le_refl _
  | closeObject frames =>
    show frames.length + _ ≤ frames.length + 1 + (Token.nesting tokens - 1)
    omega

/-! ## What is complete fits -/

/-- A datum under `depth` brackets is keyed and stays within the limit. -/
def Fits (limit depth : Nat) (d : Datum) : Prop := d.Keyed ∧ depth + d.nesting ≤ limit

theorem itemNesting_le {k : Nat} {items : List Datum} (h : ∀ d ∈ items, d.nesting ≤ k) :
    Tree.itemNesting items ≤ k := by
  induction items with
  | nil => exact Nat.zero_le k
  | cons d ds ih =>
    rw [List.forall_mem_cons] at h
    exact Nat.max_le.2 ⟨h.1, ih h.2⟩

theorem memberNesting_le {k : Nat} {members : List (String × Datum)}
    (h : ∀ m ∈ members, m.2.nesting ≤ k) : Tree.memberNesting members ≤ k := by
  induction members with
  | nil => exact Nat.zero_le k
  | cons m ms ih =>
    rw [List.forall_mem_cons] at h
    exact Nat.max_le.2 ⟨h.1, ih h.2⟩

section

variable {limit depth : Nat}

/-- A scalar opens no bracket, so it fits wherever the depth does. -/
theorem Scalar.fits {token : Token} {d : Datum} (h : Scalar token d) (hdepth : depth ≤ limit) :
    Fits limit depth d := by
  cases h with
  | _ => exact ⟨trivial, hdepth⟩

/-- An array takes one bracket, and its items fit below it. -/
theorem fits_arr {items : List Datum} (hdepth : depth + 1 ≤ limit)
    (h : ∀ d ∈ items, Fits limit (depth + 1) d) : Fits limit depth (.arr items) := by
  refine ⟨(Tree.itemsKeyed_iff items).2 fun d hd => (h d hd).1, ?_⟩
  have hnesting : Tree.itemNesting items ≤ limit - (depth + 1) := by
    apply itemNesting_le
    intro d hd
    have hfits := (h d hd).2
    omega
  show depth + (Tree.itemNesting items + 1) ≤ limit
  omega

/-- An object takes one bracket, and its members are among the pairs, which fit below it. -/
theorem fits_object {pairs : List (String × Datum)} (hdepth : depth + 1 ≤ limit)
    (h : ∀ m ∈ pairs, Fits limit (depth + 1) m.2) : Fits limit depth (Datum.object pairs) := by
  have hmem : ∀ m ∈ Members.ofSets pairs, Fits limit (depth + 1) m.2 :=
    fun m hm => h m (Members.gathers_ofSets.mem pairs m hm)
  refine ⟨⟨Members.nodup_keys_ofSets pairs,
    (Tree.membersKeyed_iff _).2 fun m hm => (hmem m hm).1⟩, ?_⟩
  have hnesting : Tree.memberNesting (Members.ofSets pairs) ≤ limit - (depth + 1) := by
    apply memberNesting_le
    intro m hm
    have hfits := (hmem m hm).2
    omega
  show depth + (Tree.memberNesting (Members.ofSets pairs) + 1) ≤ limit
  omega

end

/-- What is complete in an open container fits. -/
def Frame.Fits (limit depth : Nat) : Frame → Prop
  | .items done => ∀ d ∈ done, Builder.Fits limit depth d
  | .members done _ => ∀ m ∈ done, Builder.Fits limit depth m.2

/-- What is complete in the open containers fits; the outermost one has the depth 1. -/
def FramesFit (limit : Nat) : List Frame → Prop
  | [] => True
  | frame :: frames => frame.Fits limit (frames.length + 1) ∧ FramesFit limit frames

/-- What is complete beside the open containers fits. -/
def Phase.Fits (limit depth : Nat) : Phase → Prop
  | .key done => ∀ m ∈ done, Builder.Fits limit depth m.2
  | .colon done _ => ∀ m ∈ done, Builder.Fits limit depth m.2
  | .after d => Builder.Fits limit depth d
  | _ => True

namespace State

/-- All that is complete in a state fits. -/
structure Fits (limit : Nat) (s : State) : Prop where
  frames : FramesFit limit s.frames
  phase : s.phase.Fits limit s.depth

/-- What holds of all frames holds of those below the topmost. -/
theorem framesFit_tail {limit : Nat} {frames : List Frame} (h : FramesFit limit frames) :
    FramesFit limit frames.tail := by
  cases frames with
  | nil => trivial
  | cons frame frames => exact h.2

/-- A move within the limit keeps all that is complete fitting. -/
theorem Fits.of_moves {limit : Nat} {s s' : State} {token : Token} (h : Moves s token s')
    (hs : s.Fits limit) (hdepth : s.depth ≤ limit) (hdepth' : s'.depth ≤ limit) :
    s'.Fits limit := by
  cases h with
  | scalar starts isScalar => exact ⟨hs.frames, isScalar.fits hdepth'⟩
  | openArray starts => exact ⟨⟨List.forall_mem_nil _, hs.frames⟩, trivial⟩
  | openObject starts => exact ⟨hs.frames, trivial⟩
  | emptyArray frames =>
    exact ⟨framesFit_tail hs.frames, fits_arr hdepth (List.forall_mem_nil _)⟩
  | emptyObject frames => exact ⟨hs.frames, fits_object hdepth (List.forall_mem_nil _)⟩
  | firstKey frames key => exact ⟨hs.frames, List.forall_mem_nil _⟩
  | key frames done key => exact ⟨hs.frames, hs.phase⟩
  | colon frames done key => exact ⟨⟨hs.phase, hs.frames⟩, trivial⟩
  | nextItem frames done d =>
    obtain ⟨⟨hdone, hframes⟩, hd⟩ := hs
    exact ⟨⟨List.forall_mem_cons.2 ⟨hd, hdone⟩, hframes⟩, trivial⟩
  | closeArray frames done d =>
    obtain ⟨⟨hdone, hframes⟩, hd⟩ := hs
    -- the frame holds its items last first, and closing it puts them in order
    have hall : ∀ e ∈ d :: done, Builder.Fits limit (frames.length + 1) e :=
      List.forall_mem_cons.2 ⟨hd, hdone⟩
    refine ⟨hframes, fits_arr hdepth ?_⟩
    intro e he
    exact hall e (List.mem_reverse.1 he)
  | nextMember frames done key d =>
    obtain ⟨⟨hdone, hframes⟩, hd⟩ := hs
    exact ⟨hframes, List.forall_mem_cons.2 ⟨hd, hdone⟩⟩
  | closeObject frames done key d =>
    obtain ⟨⟨hdone, hframes⟩, hd⟩ := hs
    have hall : ∀ m ∈ (key, d) :: done, Builder.Fits limit (frames.length + 1) m.2 :=
      List.forall_mem_cons.2 ⟨hd, hdone⟩
    refine ⟨hframes, fits_object hdepth ?_⟩
    intro m hm
    exact hall m (List.mem_reverse.1 hm)

/-- A run over tokens within the limit keeps all that is complete fitting. -/
theorem fits_of_foldlM {limit : Nat} {tokens : List Token} {s s' : State}
    (h : tokens.foldlM step? s = some s') (hs : s.Fits limit)
    (hlimit : s.depth + Token.nesting tokens ≤ limit) : s'.Fits limit := by
  induction tokens generalizing s with
  | nil =>
    obtain rfl := Option.some.inj h
    exact hs
  | cons token tokens ih =>
    rw [List.foldlM_cons] at h
    obtain ⟨t, ht, h⟩ := Option.bind_eq_some_iff.1 h
    -- the depth and the nesting that is to come stay below the limit together
    have hmoves := moves_of_step ht
    have hnesting := hmoves.depth_add_nesting_le tokens
    exact ih h (hs.of_moves hmoves (by omega) (by omega)) (by omega)

end State

end Builder

/-- The datum of tokens has distinct keys and nests no deeper than they do. -/
theorem Datum.fits_of_ofTokens {tokens : List Token} {d : Datum}
    (h : Datum.ofTokens? tokens = some d) : d.Keyed ∧ d.nesting ≤ Token.nesting tokens := by
  obtain ⟨s, hs, hd⟩ := Option.bind_eq_some_iff.1 h
  have hfits : s.Fits (Token.nesting tokens) :=
    Builder.State.fits_of_foldlM hs ⟨trivial, trivial⟩ (Nat.zero_add _).le
  unfold Builder.State.finish? at hd
  split at hd
  · rename_i e hframes hphase
    obtain rfl := Option.some.inj hd
    -- at the end no bracket is open, so the limit bounds the nesting itself
    have hcomplete := hfits.phase
    unfold Builder.State.depth at hcomplete
    rw [hphase, hframes] at hcomplete
    exact ⟨hcomplete.1, (Nat.zero_add _).symm.le.trans hcomplete.2⟩
  · cases hd

end JsonTree
