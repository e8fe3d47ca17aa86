import JsonTree.Document.Data

/-!
# Recipes

A recipe says how a document is built from texts, machine values and data. It is built depth first
and from left to right, and the first number that the policy refuses stops it.

- `Recipe`: the ways to build a value.
- `Recipe.build`: the document of a recipe under a policy.
-/

namespace JsonTree

/-- A layer around a document: an array with one item, or an object with one member. -/
inductive Wrapping where
  | array
  | object
deriving DecidableEq

/-- How a document is built. -/
inductive Recipe where
  | null
  | bool (b : Bool)
  | str (s : String)
  /-- A number with this text. -/
  | numeral (text : String)
  /-- A number with the canonical text of a value. -/
  | float (x : Binary64)
  /-- A number with the digits of an integer. -/
  | int (n : Int)
  /-- The document of a datum. -/
  | datum (d : Datum)
  | arr (items : List Recipe)
  /-- An object in which a repeated key stands at its last place. -/
  | object (pairs : List (String × Recipe))
  /-- An object in which a repeated key stands at its first place. -/
  | map (pairs : List (String × Recipe))
  /-- As many layers as `depth` says around a document, their kinds taken in turn. -/
  | nest (depth : Nat) (kinds : List Wrapping) (inner : Recipe)

/-- One layer around a document. -/
def Wrapping.wrap {ν : Type} : Wrapping → Tree ν → Tree ν
  | .array, t => .arr [t]
  | .object, t => .object [("k", t)]

/-- Layers around a document, the innermost first; layer `i` has kind `i` of the list, which is
gone through again and again. -/
def Wrapping.wrapAll {ν : Type} (depth : Nat) (kinds : List Wrapping) (t : Tree ν) : Tree ν :=
  (List.range depth).foldl (fun t i =>
    match kinds[i % kinds.length]? with
    | some kind => kind.wrap t
    | none => t) t

namespace Recipe

mutual

/-- The document of a recipe, or the refusal of its first refused number. -/
def build (p : Policy) : Recipe → Except NumberError (Document p)
  | .null => return .null
  | .bool b => return .bool b
  | .str s => return .str s
  | .numeral text => return .num (← Number.ofText p text)
  | .float x => return .num (← Number.ofBinary64 p x)
  | .int n => return .num (Number.ofInt p n)
  | .datum d => Document.ofDatum p d
  | .arr items => return .arr (← buildItems p items)
  | .object pairs => return .object (← buildPairs p pairs)
  | .map pairs => return .obj (Members.ofSets (← buildPairs p pairs))
  | .nest depth kinds inner => return Wrapping.wrapAll depth kinds (← build p inner)

/-- The documents of recipes, from the first to the last. -/
def buildItems (p : Policy) : List Recipe → Except NumberError (List (Document p))
  | [] => return []
  | r :: rs => do
    let t ← build p r
    let ts ← buildItems p rs
    return t :: ts

/-- The documents of recipes under keys, from the first to the last. -/
def buildPairs (p : Policy) :
    List (String × Recipe) → Except NumberError (List (String × Document p))
  | [] => return []
  | (k, r) :: rs => do
    let t ← build p r
    let ts ← buildPairs p rs
    return (k, t) :: ts

end

end Recipe

end JsonTree
