import JsonTree.Datum
import JsonTree.Document.Basic

/-!
# Documents and data

- `Number.datum`, `Number.losses`: the datum of a number text, and what it does not keep.
- `Document.toDatum`: the datum of a document, which stays as it is.
- `Document.intoDatum`: the datum of a document that is taken apart for it.
- `Document.ofDatum`: the document of a datum.
-/

namespace JsonTree

namespace Number

variable {p : Policy}

/-- The datum of a number; null where no machine number stands for the text. -/
def datum (n : Number p) : Datum :=
  match n.reading.machine? with
  | some m => .num m
  | none => .null

/-- What the datum of a number does not keep. -/
def losses (n : Number p) : List LogRecord :=
  match n.reading with
  | .number _ => []
  | .overflow _ => [.saturates n.text]
  | .unreadable => [.unreadable n.text]

/-- The datum of a number, with a record of what is lost. -/
def toDatum (n : Number p) : Logged Datum := ⟨n.datum, n.losses⟩

end Number

namespace Document

variable {p : Policy}

/-- The datum of a document that stays as it is. -/
def toDatum (t : Document p) : Logged Datum := t.traverse Members.ofSets Number.toDatum

mutual

/-- The datum of a document that is taken apart: its texts and keys become those of the datum. -/
def intoDatum : Document p → Logged Datum
  | .null => return .null
  | .bool b => return .bool b
  | .str s => return .str s
  | .num n => n.toDatum
  | .arr items => do return .arr (← itemsIntoDatum items)
  | .obj members => do return .obj (Members.ofSets (← membersIntoDatum members))

/-- The data of items that are taken apart, from the first to the last. -/
def itemsIntoDatum : List (Document p) → Logged (List Datum)
  | [] => return []
  | t :: ts => do
    let d ← intoDatum t
    let ds ← itemsIntoDatum ts
    return d :: ds

/-- The data under the keys of members that are taken apart, from the first to the last. -/
def membersIntoDatum : List (String × Document p) → Logged (List (String × Datum))
  | [] => return []
  | (k, t) :: ms => do
    let d ← intoDatum t
    let ds ← membersIntoDatum ms
    return (k, d) :: ds

end

/-- The document of a datum: integers by their digits, floats by their serialized text, which the
policy must accept. -/
def ofDatum (p : Policy) (d : Datum) : Except NumberError (Document p) :=
  d.traverse Members.ofList fun m => return .num (← Number.ofMachine p m)

end Document

end JsonTree
