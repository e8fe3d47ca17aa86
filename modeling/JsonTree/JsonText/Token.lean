import JsonTree.Datum

/-!
# Tokens of JSON text

A JSON text is a sequence of tokens; a tree is written by listing its tokens, and a datum is read
by running through them.

- `Token`: the tokens. A number token holds a machine number.
- `Tree.tokens`: the tokens of a tree, numbers given by a function.
- `Token.nesting`: how many brackets are open at the deepest place.
-/

namespace JsonTree

/-- A token of JSON text. -/
inductive Token where
  | openArray
  | closeArray
  | openObject
  | closeObject
  | comma
  | colon
  | null
  | bool (b : Bool)
  | str (s : String)
  | num (m : MachineNumber)
deriving DecidableEq

namespace Tree

variable {ν : Type}

mutual

/-- The tokens of a tree, followed by `rest`. -/
def tokens (leaf : ν → Token) : Tree ν → List Token → List Token
  | .null, rest => .null :: rest
  | .bool b, rest => .bool b :: rest
  | .str s, rest => .str s :: rest
  | .num n, rest => leaf n :: rest
  | .arr items, rest => .openArray :: itemTokens leaf items (.closeArray :: rest)
  | .obj members, rest => .openObject :: memberTokens leaf members (.closeObject :: rest)

/-- The tokens of items, with commas between them, followed by `rest`. -/
def itemTokens (leaf : ν → Token) : List (Tree ν) → List Token → List Token
  | [], rest => rest
  | t :: ts, rest =>
    tokens leaf t (if ts.isEmpty then rest else .comma :: itemTokens leaf ts rest)

/-- The tokens of members, with commas between them, followed by `rest`. -/
def memberTokens (leaf : ν → Token) : List (String × Tree ν) → List Token → List Token
  | [], rest => rest
  | (k, t) :: ms, rest =>
    .str k :: .colon ::
      tokens leaf t (if ms.isEmpty then rest else .comma :: memberTokens leaf ms rest)

end

end Tree

/-- How many brackets are open at the deepest place: the greatest excess of opening over closing
brackets in the sequences that tokens start with. -/
def Token.nesting : List Token → Nat
  | [] => 0
  | .openArray :: ts => nesting ts + 1
  | .openObject :: ts => nesting ts + 1
  | .closeArray :: ts => nesting ts - 1
  | .closeObject :: ts => nesting ts - 1
  | _ :: ts => nesting ts

end JsonTree
