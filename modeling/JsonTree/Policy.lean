import JsonTree.Numeral.Check

/-!
# Policies

A policy decides which number texts a document may hold. Under `safe` every number is a JSON
number with a finite reading; under `unchecked` a number is any text at all.

- `Policy.checkText`, `Policy.checkValue`: whether a text, or the text of a value, may be held.
-/

namespace JsonTree

/-- Which number texts a document may hold. -/
inductive Policy where
  | safe
  | unchecked
deriving DecidableEq

namespace Policy

/-- The name used in messages. -/
def name : Policy → String
  | .safe => "safe"
  | .unchecked => "unchecked"

/-- Whether a text may be held as a number. -/
def checkText : Policy → String → Except NumberError Unit
  | .safe, text => Numeral.check text
  | .unchecked, _ => .ok ()

/-- Whether a binary64 value may be held as a number. -/
def checkValue : Policy → Binary64 → Except NumberError Unit
  | .safe, x => x.checkFinite
  | .unchecked, _ => .ok ()

end Policy

end JsonTree
