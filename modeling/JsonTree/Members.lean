/-!
# Members

The members of an object: a list of keys with values, in an order that is kept. `List.lookup` finds
the value of a key.

- `Members.keys`, `Members.values`: the keys and the values in order.
- `Members.put`: a key's value at the end, wherever the key stood before.
- `Members.set`: a key's value at the place where the key stands, or at the end.
- `Members.ofList`, `Members.ofSets`: members from pairs with repetitions, by `put` and by `set`:
  both keep the last value of a key, the first at the key's last place, the second at its first.
-/

namespace JsonTree.Members

variable {α : Type}

/-- The keys in order. -/
def keys (ms : List (String × α)) : List String := ms.map Prod.fst

/-- The values in order. -/
def values (ms : List (String × α)) : List α := ms.map Prod.snd

/-- The members without a key. -/
def erase (key : String) (ms : List (String × α)) : List (String × α) :=
  ms.filter fun m => m.1 != key

/-- The key's value as the last member, in place of any earlier one. -/
def put (ms : List (String × α)) (m : String × α) : List (String × α) := erase m.1 ms ++ [m]

/-- The key's value where the key stands, or as the last member if it does not. -/
def set : List (String × α) → String × α → List (String × α)
  | [], m => [m]
  | n :: ns, m => if n.1 = m.1 then m :: ns else n :: set ns m

/-- Distinct keys from any pairs: the last value of a key, at the place where the key was last. -/
def ofList (pairs : List (String × α)) : List (String × α) := pairs.foldl put []

/-- Distinct keys from any pairs: the last value of a key, at the place where the key was first. -/
def ofSets (pairs : List (String × α)) : List (String × α) := pairs.foldl set []

end JsonTree.Members
