import JsonTree.Tree.Equality
import Std.Data.HashMap

/-!
# Hashing trees

A tree is hashed by feeding words to a hasher. An object feeds its size and the sum of the digests
of its members, so the order of the members leaves no trace.

- `HashWord`: what a hasher is fed with; `HashWord.digest`: one digest of a sequence of words.
- `Tree.hashWords`: the words of a tree, for a given digest of one member's words.
- `Tree.firstIndices`: for each tree of a list the index of the first one equal to it, found
  through buckets of equal hash.
-/

namespace JsonTree

/-- What is fed to a hasher in one go. A hasher may treat each sort of word in its own way. -/
inductive HashWord where
  | kind (k : Kind)
  | flag (b : Bool)
  | text (s : String)
  | size (n : UInt64)
  | sum (w : UInt64)
deriving DecidableEq

/-- A word in 64 bits. -/
def HashWord.code : HashWord → UInt64
  | .kind k => hash k.name
  | .flag b => b.toUInt64
  | .text s => hash s
  | .size n => n
  | .sum w => w

/-- A digest of a sequence of words. -/
def HashWord.digest (ws : List HashWord) : UInt64 := ws.foldl (fun h w => mixHash h w.code) 7

namespace Tree

variable {ν : Type}

mutual

/-- The words of a tree: its kind, then its payload. Numbers are fed as text. -/
def hashWords (digest : List HashWord → UInt64) (text : ν → String) : Tree ν → List HashWord
  | .null => [.kind .null]
  | .bool b => [.kind .boolean, .flag b]
  | .str s => [.kind .string, .text s]
  | .num n => [.kind .number, .text (text n)]
  | .arr items =>
    .kind .array :: .size items.length.toUInt64 :: itemsHashWords digest text items
  | .obj members =>
    [.kind .object, .size members.length.toUInt64, .sum (membersDigest digest text members)]

/-- The words of all items in order. -/
def itemsHashWords (digest : List HashWord → UInt64) (text : ν → String) :
    List (Tree ν) → List HashWord
  | [] => []
  | t :: ts => hashWords digest text t ++ itemsHashWords digest text ts

/-- The sum of the members' digests, modulo 2^64. -/
def membersDigest (digest : List HashWord → UInt64) (text : ν → String) :
    List (String × Tree ν) → UInt64
  | [] => 0
  | (k, t) :: ms => digest (.text k :: hashWords digest text t) + membersDigest digest text ms

end

/-! ## Finding equal trees -/

/-- The trees met so far that had no equal before them, with their indices, by hash. -/
abbrev Buckets (ν : Type) := Std.HashMap UInt64 (List (Tree ν × Nat))

/-- Adds the tree at an index: the buckets after it, and the index of the first tree equal to it. -/
def Buckets.add (eq : ν → ν → Bool) (hashOf : Tree ν → UInt64) (buckets : Buckets ν)
    (t : Tree ν) (index : Nat) : Buckets ν × Nat :=
  let bucket := buckets.getD (hashOf t) []
  match bucket.find? fun e => eqBy eq t e.1 with
  | some e => (buckets, e.2)
  | none => (buckets.insert (hashOf t) (bucket ++ [(t, index)]), index)

/-- The indices of the first equals of trees that stand from `index` on. -/
def firstIndicesFrom (eq : ν → ν → Bool) (hashOf : Tree ν → UInt64) (buckets : Buckets ν)
    (index : Nat) : List (Tree ν) → List Nat
  | [] => []
  | t :: ts =>
    let (after, first) := buckets.add eq hashOf t index
    first :: firstIndicesFrom eq hashOf after (index + 1) ts

/-- For each tree the index of the first tree equal to it. -/
def firstIndices (eq : ν → ν → Bool) (hashOf : Tree ν → UInt64) (ts : List (Tree ν)) : List Nat :=
  firstIndicesFrom eq hashOf ∅ 0 ts

end Tree

end JsonTree
