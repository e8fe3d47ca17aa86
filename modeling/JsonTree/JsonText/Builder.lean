import JsonTree.JsonText.Token

/-!
# Building a datum from tokens

- `Builder.State`: the containers that are open, and what may come next.
- `Builder.State.step?`: the state after one more token, if it may come.
- `Datum.ofTokens?`: the datum whose tokens these are. A repeated key keeps its first place and
  takes the last value.
-/

namespace JsonTree

namespace Builder

/-- An open container around the value being read, with what precedes that value, last first. -/
inductive Frame where
  | items (done : List Datum)
  | members (done : List (String × Datum)) (key : String)

/-- What may come next. -/
inductive Phase where
  /-- A value. -/
  | value
  /-- The first item of an array, or its end. -/
  | firstItem
  /-- The first key of an object, or its end. -/
  | firstKey
  /-- A key after the given members. -/
  | key (done : List (String × Datum))
  /-- The colon after a key. -/
  | colon (done : List (String × Datum)) (key : String)
  /-- What may follow a complete value: a comma or a closing bracket. -/
  | after (d : Datum)

/-- The open containers, the innermost first, and the phase. -/
structure State where
  frames : List Frame
  phase : Phase

namespace State

/-- Before any token. -/
def start : State := ⟨[], .value⟩

/-- A token that starts a value. -/
def open? (frames : List Frame) : Token → Option State
  | .null => some ⟨frames, .after .null⟩
  | .bool b => some ⟨frames, .after (.bool b)⟩
  | .str s => some ⟨frames, .after (.str s)⟩
  | .num m => some ⟨frames, .after (.num m)⟩
  | .openArray => some ⟨.items [] :: frames, .firstItem⟩
  | .openObject => some ⟨frames, .firstKey⟩
  | _ => none

/-- A token after a complete value. -/
def continue? (d : Datum) : List Frame → Token → Option State
  | .items done :: frames, .comma => some ⟨.items (d :: done) :: frames, .value⟩
  | .items done :: frames, .closeArray => some ⟨frames, .after (.arr (d :: done).reverse)⟩
  | .members done key :: frames, .comma => some ⟨frames, .key ((key, d) :: done)⟩
  | .members done key :: frames, .closeObject =>
    some ⟨frames, .after (Datum.object ((key, d) :: done).reverse)⟩
  | _, _ => none

/-- The state after one more token, if it may come. -/
def step? (s : State) (token : Token) : Option State :=
  match s.phase, token with
  | .value, token => open? s.frames token
  | .firstItem, .closeArray => some ⟨s.frames.tail, .after (.arr [])⟩
  | .firstItem, token => open? s.frames token
  | .firstKey, .closeObject => some ⟨s.frames, .after (Datum.object [])⟩
  | .firstKey, .str key => some ⟨s.frames, .colon [] key⟩
  | .key done, .str key => some ⟨s.frames, .colon done key⟩
  | .colon done key, .colon => some ⟨.members done key :: s.frames, .value⟩
  | .after d, token => continue? d s.frames token
  | _, _ => none

/-- The datum that has been read, if it is complete. -/
def finish? (s : State) : Option Datum :=
  match s.frames, s.phase with
  | [], .after d => some d
  | _, _ => none

end State

end Builder

/-- The datum whose tokens these are, if they are the tokens of one. -/
def Datum.ofTokens? (tokens : List Token) : Option Datum := do
  let s ← tokens.foldlM Builder.State.step? Builder.State.start
  s.finish?

end JsonTree
