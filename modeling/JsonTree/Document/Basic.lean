import JsonTree.Number
import JsonTree.Tree.Equality
import JsonTree.Tree.Hashing
import JsonTree.Tree.Traversal
import JsonTree.Logged

/-!
# Documents

A document is a JSON value whose numbers are texts under a policy.

- `Document.same`: equality up to the order of members, numbers by their text.
- `Document.hash`, `Document.firstIndices`: hashing in agreement with that equality.
- `Document.convert`: the same document under another policy, or the first refusal.
- `Document.toSafe`, `Document.toUnchecked`: the two conversions.
-/

namespace JsonTree

/-- A JSON value whose numbers are texts under a policy. -/
abbrev Document (p : Policy) := Tree (Number p)

namespace Document

variable {p : Policy}

/-- Equality up to the order of members; numbers are equal when their texts are. -/
def same (a b : Document p) : Bool := Tree.eqBy (fun m n => m.text == n.text) a b

/-- The words that a document feeds to a hasher. -/
def hashWords (digest : List HashWord → UInt64) (t : Document p) : List HashWord :=
  Tree.hashWords digest Number.text t

/-- The hash of a document. -/
def hash (t : Document p) : UInt64 := HashWord.digest (hashWords HashWord.digest t)

/-- For each document the index of the first document equal to it. -/
def firstIndices (ts : List (Document p)) : List Nat :=
  Tree.firstIndices (fun m n => m.text == n.text) hash ts

/-- The same document under policy `q`; the first number in document order that `q` refuses stops
the conversion. -/
def convert (q : Policy) (t : Document p) : Except NumberError (Document q) :=
  t.traverse Members.ofList fun n => return .num (← n.recheck q)

/-- A safe document without its promise. -/
def toUnchecked (t : Document .safe) : Document .unchecked :=
  Id.run (t.traverse Members.ofList fun n => return .num n.toUnchecked)

/-- An unchecked document as a safe one, with a record of a refusal. -/
def toSafe (t : Document .unchecked) : Logged (Except NumberError (Document .safe)) :=
  match convert .safe t with
  | .ok u => ⟨.ok u, []⟩
  | .error e => ⟨.error e, [.refused e]⟩

/-- An array of documents, and the object collected from members, one after the other; none for
documents of other kinds. -/
def concat? : Document p → Document p → Option (Document p)
  | .arr xs, .arr ys => some (.arr (xs ++ ys))
  | .obj ms, .obj ns => some (.object (ms ++ ns))
  | _, _ => none

/-- The items or the members in reverse order; none for other kinds. -/
def reverse? : Document p → Option (Document p)
  | .arr xs => some (.arr xs.reverse)
  | .obj ms => some (.object ms.reverse)
  | _ => none

end Document

end JsonTree
