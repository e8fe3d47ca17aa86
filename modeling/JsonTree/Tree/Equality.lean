import JsonTree.Tree.Basic

/-!
# Equality of trees

- `Tree.eqBy`: equality up to the order of members, for a given equality of numbers. Objects are
  compared by their number of members and by looking up every member of the left one in the right
  one.
-/

namespace JsonTree.Tree

variable {ν : Type}

mutual

/-- Equality up to the order of members, numbers compared by `eq`. -/
def eqBy (eq : ν → ν → Bool) : Tree ν → Tree ν → Bool
  | .null, .null => true
  | .bool a, .bool b => a == b
  | .str a, .str b => a == b
  | .num a, .num b => eq a b
  | .arr xs, .arr ys => itemsEqBy eq xs ys
  | .obj ms, .obj ns => ms.length == ns.length && membersFoundBy eq ms ns
  | _, _ => false

/-- Equality item by item. -/
def itemsEqBy (eq : ν → ν → Bool) : List (Tree ν) → List (Tree ν) → Bool
  | [], [] => true
  | x :: xs, y :: ys => eqBy eq x y && itemsEqBy eq xs ys
  | _, _ => false

/-- Whether every member on the left has an equal value under its key on the right. -/
def membersFoundBy (eq : ν → ν → Bool) :
    List (String × Tree ν) → List (String × Tree ν) → Bool
  | [], _ => true
  | (k, t) :: ms, ns =>
    (match ns.lookup k with
      | some u => eqBy eq t u
      | none => false) && membersFoundBy eq ms ns

end

end JsonTree.Tree
