import JsonTree.Tree.Basic

/-!
# Traversing a tree

- `Tree.traverse`: replaces every number by a tree, in document order and with effects; a failure
  at one number stops the traversal there.

Objects are gathered anew from their converted members, by a function that the caller chooses.
-/

namespace JsonTree.Tree

variable {ν μ : Type} {m : Type → Type} [Monad m]

mutual

/-- Replaces every number by a tree, in document order. -/
def traverse (gather : List (String × Tree μ) → List (String × Tree μ))
    (f : ν → m (Tree μ)) : Tree ν → m (Tree μ)
  | .null => pure .null
  | .bool b => pure (.bool b)
  | .str s => pure (.str s)
  | .num n => f n
  | .arr items => do return .arr (← traverseItems gather f items)
  | .obj members => do return .obj (gather (← traverseMembers gather f members))

/-- Traverses items from the first to the last. -/
def traverseItems (gather : List (String × Tree μ) → List (String × Tree μ))
    (f : ν → m (Tree μ)) : List (Tree ν) → m (List (Tree μ))
  | [] => pure []
  | t :: ts => do
    let u ← traverse gather f t
    let us ← traverseItems gather f ts
    return u :: us

/-- Traverses the values of members from the first to the last. -/
def traverseMembers (gather : List (String × Tree μ) → List (String × Tree μ))
    (f : ν → m (Tree μ)) : List (String × Tree ν) → m (List (String × Tree μ))
  | [] => pure []
  | (k, t) :: ms => do
    let u ← traverse gather f t
    let us ← traverseMembers gather f ms
    return (k, u) :: us

end

end JsonTree.Tree
