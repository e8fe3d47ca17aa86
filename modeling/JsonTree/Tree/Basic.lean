import JsonTree.Members

/-!
# JSON trees

A JSON value over a type `ν` of numbers: the same shape serves documents, whose numbers are texts,
and data, whose numbers are machine numbers.

- `Tree`: the type; `Tree.kind`, and one accessor for each kind.
- `Tree.object`: an object from pairs with any repetition of keys.
- `Tree.get?`, `Tree.contains`, `Tree.item?`, `Tree.at?`: lookup by key, by index, and along a path.
- `Tree.numbers`, `Tree.nesting`: the numbers in document order, and how deep brackets nest.
- `Tree.Keyed`: no object in the tree holds a key twice.
-/

namespace JsonTree

/-- A JSON value whose numbers are of type `ν`. Members keep their order. -/
inductive Tree (ν : Type) where
  | null
  | bool (b : Bool)
  | str (s : String)
  | num (n : ν)
  | arr (items : List (Tree ν))
  | obj (members : List (String × Tree ν))

/-- The kinds of JSON values. -/
inductive Kind where
  | null
  | boolean
  | string
  | number
  | array
  | object
deriving DecidableEq

/-- The name of a kind. -/
def Kind.name : Kind → String
  | .null => "null"
  | .boolean => "boolean"
  | .string => "string"
  | .number => "number"
  | .array => "array"
  | .object => "object"

/-- One step down a tree. -/
inductive PathStep where
  | key (k : String)
  | index (i : Nat)
deriving DecidableEq

namespace Tree

variable {ν : Type}

instance : Inhabited (Tree ν) := ⟨.null⟩

/-- The object collected from pairs: a repeated key keeps its last value, at its last place. -/
def object (pairs : List (String × Tree ν)) : Tree ν := .obj (Members.ofList pairs)

/-! ## Kinds and payloads -/

/-- The kind of a value. -/
def kind : Tree ν → Kind
  | .null => .null
  | .bool _ => .boolean
  | .str _ => .string
  | .num _ => .number
  | .arr _ => .array
  | .obj _ => .object

/-- The payload of a boolean. -/
def bool? : Tree ν → Option Bool
  | .bool b => some b
  | _ => none

/-- The payload of a string. -/
def str? : Tree ν → Option String
  | .str s => some s
  | _ => none

/-- The payload of a number. -/
def num? : Tree ν → Option ν
  | .num n => some n
  | _ => none

/-- The items of an array. -/
def items? : Tree ν → Option (List (Tree ν))
  | .arr items => some items
  | _ => none

/-- The members of an object. -/
def members? : Tree ν → Option (List (String × Tree ν))
  | .obj members => some members
  | _ => none

/-- The number of items or members. -/
def length? : Tree ν → Option Nat
  | .arr items => some items.length
  | .obj members => some members.length
  | _ => none

/-! ## Lookup -/

/-- The value of a key, if this is an object that holds the key. -/
def get? (key : String) : Tree ν → Option (Tree ν)
  | .obj members => members.lookup key
  | _ => none

/-- Whether this is an object that holds the key. -/
def contains (key : String) : Tree ν → Bool
  | .obj members => members.any fun m => m.1 == key
  | _ => false

/-- The item at an index, if this is an array that is long enough. -/
def item? (index : Nat) : Tree ν → Option (Tree ν)
  | .arr items => items[index]?
  | _ => none

/-- The value one step down. -/
def step? (t : Tree ν) : PathStep → Option (Tree ν)
  | .key k => t.get? k
  | .index i => t.item? i

/-- The value at the end of a path. -/
def at? (t : Tree ν) (path : List PathStep) : Option (Tree ν) := path.foldlM step? t

/-! ## Views of a whole tree -/

mutual

/-- The numbers in document order. -/
def numbers : Tree ν → List ν
  | .null => []
  | .bool _ => []
  | .str _ => []
  | .num n => [n]
  | .arr items => itemNumbers items
  | .obj members => memberNumbers members

/-- The numbers of all items. -/
def itemNumbers : List (Tree ν) → List ν
  | [] => []
  | t :: ts => numbers t ++ itemNumbers ts

/-- The numbers of all members. -/
def memberNumbers : List (String × Tree ν) → List ν
  | [] => []
  | (_, t) :: ms => numbers t ++ memberNumbers ms

end

mutual

/-- How many brackets are open at the deepest place. -/
def nesting : Tree ν → Nat
  | .null => 0
  | .bool _ => 0
  | .str _ => 0
  | .num _ => 0
  | .arr items => itemNesting items + 1
  | .obj members => memberNesting members + 1

/-- The deepest nesting among items. -/
def itemNesting : List (Tree ν) → Nat
  | [] => 0
  | t :: ts => max (nesting t) (itemNesting ts)

/-- The deepest nesting among members. -/
def memberNesting : List (String × Tree ν) → Nat
  | [] => 0
  | (_, t) :: ms => max (nesting t) (memberNesting ms)

end

mutual

/-- No object in the tree holds a key twice. -/
def Keyed : Tree ν → Prop
  | .null => True
  | .bool _ => True
  | .str _ => True
  | .num _ => True
  | .arr items => ItemsKeyed items
  | .obj members => (Members.keys members).Nodup ∧ MembersKeyed members

/-- Every item is keyed. -/
def ItemsKeyed : List (Tree ν) → Prop
  | [] => True
  | t :: ts => Keyed t ∧ ItemsKeyed ts

/-- The value of every member is keyed. -/
def MembersKeyed : List (String × Tree ν) → Prop
  | [] => True
  | (_, t) :: ms => Keyed t ∧ MembersKeyed ms

end

end Tree

end JsonTree
