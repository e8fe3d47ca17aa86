import JsonTree.Decimal.Basic

/-!
# Reading numbers from text

Readers for texts that hold a number and nothing else.

- `readInteger?`: an optional sign and decimal digits, leading zeros allowed.
- `readFloatText?`: the float syntax: an optional sign, then `inf`, `infinity` or `nan` in any
  letter case, or digits with an optional point and an optional exponent.
- `Binary64.ofText`: the nearest binary64 value of a float text, and NaN for any other text.
-/

namespace JsonTree

/-- An optional sign: whether it is a minus, and what follows it. -/
def readSign : List Char → Bool × List Char
  | '-' :: cs => (true, cs)
  | '+' :: cs => (false, cs)
  | cs => (false, cs)

/-- One or more decimal digits. -/
def readDigits? (cs : List Char) : Option Nat :=
  if cs ≠ [] ∧ cs.all Char.isDigit then some (Nat.ofDigitChars 10 cs 0) else none

/-- An optional sign and one or more decimal digits. -/
def readInteger? (cs : List Char) : Option Int :=
  (readDigits? (readSign cs).2).map fun n => if (readSign cs).1 then -(n : Int) else n

/-- What a float text says. -/
inductive FloatText where
  | decimal (neg : Bool) (d : Decimal)
  | infinity (neg : Bool)
  | nan
deriving DecidableEq

/-- An optional fraction: its digits, and what follows them. -/
def readFraction : List Char → List Char × List Char
  | '.' :: cs => (cs.takeWhile Char.isDigit, cs.dropWhile Char.isDigit)
  | cs => ([], cs)

/-- An optional exponent that ends the text. -/
def readExponent? : List Char → Option Int
  | [] => some 0
  | c :: cs => if c = 'e' ∨ c = 'E' then readInteger? cs else none

/-- Digits, an optional point with digits, an optional exponent; one digit before or after the
point is enough. -/
def readDecimal? (cs : List Char) : Option Decimal :=
  let whole := cs.takeWhile Char.isDigit
  let (fraction, rest) := readFraction (cs.dropWhile Char.isDigit)
  if whole = [] ∧ fraction = [] then none
  else (readExponent? rest).map fun e =>
    ⟨Nat.ofDigitChars 10 (whole ++ fraction) 0, e - fraction.length⟩

/-- The words of the float syntax, in lower case. -/
def readWord? (neg : Bool) (cs : List Char) : Option FloatText :=
  if cs = "inf".toList ∨ cs = "infinity".toList then some (.infinity neg)
  else if cs = "nan".toList then some .nan
  else none

/-- What the text says as a float, if it has the float syntax. -/
def readFloatText? (cs : List Char) : Option FloatText :=
  let (neg, body) := readSign cs
  (readWord? neg (body.map Char.toLower)).or ((readDecimal? body).map (.decimal neg))

/-- The binary64 value of a float text: the nearest one for a decimal. -/
def FloatText.toBinary64 : FloatText → Binary64
  | .decimal neg d => d.toBinary64 neg
  | .infinity neg => .infinity neg
  | .nan => .nan

/-- The binary64 reading of any text; what is no float text reads as NaN. -/
def Binary64.ofText (s : String) : Binary64 :=
  ((readFloatText? s.toList).map FloatText.toBinary64).getD .nan

end JsonTree
