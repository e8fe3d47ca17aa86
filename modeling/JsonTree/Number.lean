import JsonTree.MachineNumber
import JsonTree.Policy

/-!
# Numbers kept as text

A number of a document is its text; the policy in its type says what that text may be. Numbers are
equal when their texts are.

- `Number.ofText`, `Number.ofBinary64`, `Number.ofInt`, `Number.ofMachine`: making a number.
- `Number.recheck`, `Number.toUnchecked`: changing the policy.
- `Number.toBinary64`, `Number.signed?`, `Number.unsigned?`: readings of the text.
- `Number.reading`: what the text says as a machine number; `Reading.machine?`: the machine number
  that stands for it.
-/

namespace JsonTree

/-- A number, held as text. -/
structure Number (p : Policy) where
  text : String
deriving DecidableEq

/-- What a number text says as a machine number. -/
inductive Reading where
  /-- A machine number: exact for an integer that fits, else the nearest finite float. -/
  | number (m : MachineNumber)
  /-- A magnitude past the largest finite float. -/
  | overflow (neg : Bool)
  /-- No number. -/
  | unreadable
deriving DecidableEq

/-- The machine number that stands for a reading: the largest finite value of its sign for an
overflow, none for what is no number. -/
def Reading.machine? : Reading → Option MachineNumber
  | .number m => some m
  | .overflow neg => some (.float (.extreme neg))
  | .unreadable => none

/-- A natural number with an optional plus. -/
def readNatural? (cs : List Char) : Option Int :=
  if cs.head? = some '-' then none else readInteger? cs

namespace Number

variable {p : Policy}

/-- The number with exactly this text, if the policy lets it be held. -/
def ofText (p : Policy) (text : String) : Except NumberError (Number p) := do
  p.checkText text
  return ⟨text⟩

/-- The number with the canonical text of a value, if the policy lets the value be held. -/
def ofBinary64 (p : Policy) (x : Binary64) : Except NumberError (Number p) := do
  p.checkValue x
  return ⟨x.canonicalText⟩

/-- The number with the digits of an integer of any size. -/
def ofInt (p : Policy) (n : Int) : Number p := ⟨String.ofList (spellInt n)⟩

/-- The number with the text of a machine number: digits cannot be refused, the text of a float is
left to the policy. -/
def ofMachine (p : Policy) : MachineNumber → Except NumberError (Number p)
  | .int n => .ok (ofInt p n.val)
  | .float x => ofText p x.serializedText

/-- The same text under another policy, if that policy lets it be held. -/
def recheck (q : Policy) (n : Number p) : Except NumberError (Number q) := ofText q n.text

/-- The same text without any rule. -/
def toUnchecked (n : Number p) : Number .unchecked := ⟨n.text⟩

/-- Whether the text keeps the rules for safe numbers. -/
def isWellFormed (n : Number p) : Bool := (Numeral.check n.text).toBool

/-- The binary64 reading: infinite for a magnitude that is too large, NaN for no number. -/
def toBinary64 (n : Number p) : Binary64 := .ofText n.text

/-- The text as a signed 64-bit integer. -/
def signed? (n : Number p) : Option MachineInt := do
  let i ← readInteger? n.text.toList
  if i < 0x8000000000000000 then MachineInt.ofInt? i else none

/-- The text as an unsigned 64-bit integer; a minus is refused even before a zero. -/
def unsigned? (n : Number p) : Option MachineInt := do
  let i ← readNatural? n.text.toList
  MachineInt.ofInt? i

/-- The machine number of the text: signed if it fits, else unsigned if it fits, else a float. -/
def reading (n : Number p) : Reading :=
  match n.signed?.or n.unsigned? with
  | some i => .number (.int i)
  | none =>
    match n.toBinary64 with
    | .finite x => .number (.float x)
    | .nonFinite (.infinity neg) => .overflow neg
    | .nonFinite .nan => .unreadable

end Number

end JsonTree
