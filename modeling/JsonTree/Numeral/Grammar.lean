/-!
# The JSON number grammar

Which texts are JSON numbers, as a set of character sequences:

    numeral  = [ "-" ] whole fraction exponent
    whole    = "0" / one digit other than "0" and any digits
    fraction = nothing / "." and digits
    exponent = nothing / "e" or "E", an optional sign, and digits

- `IsNumeral`: membership in the language, by the rules above.
- `IsNumeral.Digits`, `IsNumeral.Whole`, `IsNumeral.Fraction`, `IsNumeral.Exponent`: its parts.
-/

namespace JsonTree

/-- One or more decimal digits. -/
def IsNumeral.Digits (cs : List Char) : Prop := cs ≠ [] ∧ ∀ c ∈ cs, c.isDigit

/-- A lone zero, or digits that do not start with one. -/
inductive IsNumeral.Whole : List Char → Prop where
  | zero : Whole ['0']
  | positive {c : Char} {cs : List Char} (lead : c.isDigit) (nonzero : c ≠ '0')
      (digits : ∀ d ∈ cs, d.isDigit) : Whole (c :: cs)

/-- An optional fraction. -/
inductive IsNumeral.Fraction : List Char → Prop where
  | absent : Fraction []
  | present {cs : List Char} (digits : Digits cs) : Fraction ('.' :: cs)

/-- An optional exponent. -/
inductive IsNumeral.Exponent : List Char → Prop where
  | absent : Exponent []
  | unsigned {mark : Char} {cs : List Char} (isMark : mark = 'e' ∨ mark = 'E')
      (digits : Digits cs) : Exponent (mark :: cs)
  | signed {mark sign : Char} {cs : List Char} (isMark : mark = 'e' ∨ mark = 'E')
      (isSign : sign = '+' ∨ sign = '-') (digits : Digits cs) : Exponent (mark :: sign :: cs)

/-- A mark cannot be read as one more digit of what stands before it. -/
theorem IsNumeral.not_isDigit_mark {mark : Char} (h : mark = 'e' ∨ mark = 'E') :
    ¬ mark.isDigit := by
  rcases h with rfl | rfl
  · decide
  · decide

/-- The character sequences that are JSON numbers. -/
inductive IsNumeral : List Char → Prop where
  | unsigned {whole fraction exponent : List Char} (isWhole : IsNumeral.Whole whole)
      (isFraction : IsNumeral.Fraction fraction) (isExponent : IsNumeral.Exponent exponent) :
      IsNumeral (whole ++ fraction ++ exponent)
  | negative {whole fraction exponent : List Char} (isWhole : IsNumeral.Whole whole)
      (isFraction : IsNumeral.Fraction fraction) (isExponent : IsNumeral.Exponent exponent) :
      IsNumeral ('-' :: (whole ++ fraction ++ exponent))

end JsonTree
