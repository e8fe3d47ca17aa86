import JsonTree.Decimal.Reading
import JsonTree.Numeral.Scan

/-!
# The rules for safe numbers

- `Numeral.checkRange`: the text reads as a finite binary64 value.
- `Numeral.check`: the text is a numeral, and in range.
- `Binary64.checkFinite`: the value is finite.
-/

namespace JsonTree

/-- Accepts the texts that read as a finite value; a text that reads as none is out of range. -/
def Numeral.checkRange (text : String) : Except NumberError Unit :=
  match Binary64.ofText text with
  | .finite _ => .ok ()
  | .nonFinite _ => .error (.outOfRange text)

/-- Accepts the numerals that read as a finite value. The grammar is judged first. -/
def Numeral.check (text : String) : Except NumberError Unit := do
  Numeral.validate text
  Numeral.checkRange text

/-- Accepts the finite values. -/
def Binary64.checkFinite : Binary64 → Except NumberError Unit
  | .finite _ => .ok ()
  | .nonFinite w => .error (.nonFinite w)

end JsonTree
