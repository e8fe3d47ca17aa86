import JsonTree.Decimal.Shortest

/-!
# Spelling a binary64 value

A value is spelled with its shortest digits in one of two layouts.

- `Decimal.Layout`: what a layout decides; `Layout.canonical` and `Layout.serialized` are the two.
- `Decimal.spell`: the digits of a decimal laid out, positional or with an exponent.
- `Finite64.spell`: the spelling of a finite value.
- `Binary64.canonicalText`: the canonical spelling of any value, words included.
-/

namespace JsonTree

/-- What a spelling decides beyond the digits. -/
structure Decimal.Layout where
  /-- The least exponent of the leading digit that is written positionally. -/
  plainFrom : Int
  /-- The first exponent of the leading digit that is again written with an exponent. -/
  plainBelow : Int
  /-- Whether a positional spelling always has a point. -/
  pointed : Bool
  /-- Whether a negative zero shows its sign. -/
  signedZero : Bool

namespace Decimal

/-- Positional from 10^-6 up to 10^21, integers without a point, one zero. -/
def Layout.canonical : Layout := ⟨-6, 21, false, false⟩

/-- Positional from 10^-5 up to 10^16, always with a point, two zeros. -/
def Layout.serialized : Layout := ⟨-5, 16, true, true⟩

/-- The decimal digits of the coefficient. -/
def digits (d : Decimal) : List Char := Nat.toDigits 10 d.coeff

/-- The power of ten at which the leading digit stands. -/
def leadingExp (d : Decimal) : Int := d.exp + d.digits.length - 1

/-- An exponent with its sign always written, and no padding. -/
def spellExponent (e : Int) : List Char :=
  'e' :: (if e < 0 then '-' else '+') :: Nat.toDigits 10 e.natAbs

/-- One digit, the others behind a point, and the exponent of the leading digit. -/
def spellScientific (d : Decimal) : List Char :=
  match d.digits with
  | [] => []
  | [c] => c :: spellExponent d.leadingExp
  | c :: cs => c :: '.' :: cs ++ spellExponent d.leadingExp

/-- All places written out, with zeros up to the point where the digits do not reach it. -/
def spellPlain (pointed : Bool) (d : Decimal) : List Char :=
  if 0 ≤ d.exp then
    d.digits ++ List.replicate d.exp.toNat '0' ++ if pointed then ['.', '0'] else []
  else if 0 ≤ d.leadingExp then
    let whole := d.leadingExp.toNat + 1
    d.digits.take whole ++ '.' :: d.digits.drop whole
  else
    '0' :: '.' :: List.replicate (-d.leadingExp - 1).toNat '0' ++ d.digits

/-- The decimal in a layout. -/
def spell (layout : Layout) (d : Decimal) : List Char :=
  if layout.plainFrom ≤ d.leadingExp ∧ d.leadingExp < layout.plainBelow then
    d.spellPlain layout.pointed
  else d.spellScientific

end Decimal

/-- A finite value in a layout: a minus where the sign shows, then its shortest digits. -/
def Finite64.spell (layout : Decimal.Layout) (x : Finite64) : List Char :=
  let digits := (Decimal.shortest x.rank).spell layout
  if x.neg && (layout.signedZero || x.rank != 0) then '-' :: digits else digits

/-- A finite value in the canonical layout. -/
def Finite64.canonicalText (x : Finite64) : String := String.ofList (x.spell .canonical)

/-- A finite value in the serialized layout. -/
def Finite64.serializedText (x : Finite64) : String := String.ofList (x.spell .serialized)

/-- The canonical spelling of any value; the words are no JSON numbers. -/
def Binary64.canonicalText : Binary64 → String
  | .finite x => x.canonicalText
  | .nonFinite (.infinity false) => "Infinity"
  | .nonFinite (.infinity true) => "-Infinity"
  | .nonFinite .nan => "NaN"

end JsonTree
