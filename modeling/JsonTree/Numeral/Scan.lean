import JsonTree.NumberError

/-!
# Scanning a numeral

The JSON number grammar read one character at a time.

- `Numeral.State`: what has been read of a numeral.
- `Numeral.State.step?`: the state after one more character, if it may stand there.
- `Numeral.State.accepting`: whether what has been read is a whole numeral.
- `Numeral.run`: as far as the characters allow.
- `Numeral.validate`: accepts a numeral, and says of any other text where and why it is none.
-/

namespace JsonTree.Numeral

/-- What has been read of a numeral, named for the part read last. -/
inductive State where
  | start
  | minus
  | zero
  | whole
  | point
  | fraction
  | mark
  | sign
  | exponent
deriving DecidableEq

namespace State

/-- A first digit of the whole part. -/
def lead? (c : Char) : Option State :=
  if c = '0' then some .zero else if c.isDigit then some .whole else none

/-- The mark that opens an exponent. -/
def mark? (c : Char) : Option State := if c = 'e' ∨ c = 'E' then some .mark else none

/-- What may follow the whole part. -/
def afterWhole? (c : Char) : Option State := if c = '.' then some .point else mark? c

/-- The state after one more character, if the character may stand there. -/
def step? : State → Char → Option State
  | .start, c => if c = '-' then some .minus else lead? c
  | .minus, c => lead? c
  | .zero, c => afterWhole? c
  | .whole, c => if c.isDigit then some .whole else afterWhole? c
  | .point, c => if c.isDigit then some .fraction else none
  | .fraction, c => if c.isDigit then some .fraction else mark? c
  | .mark, c =>
    if c = '+' ∨ c = '-' then some .sign else if c.isDigit then some .exponent else none
  | .sign, c => if c.isDigit then some .exponent else none
  | .exponent, c => if c.isDigit then some .exponent else none

/-- Whether what has been read is a numeral. -/
def accepting : State → Bool
  | .zero | .whole | .fraction | .exponent => true
  | .start | .minus | .point | .mark | .sign => false

/-- What would have been welcome in place of a character that may not stand here. -/
def expected (s : State) : Expectation := if s.accepting then .endOfNumber else .digit

end State

/-- Reads while the characters may stand where they do: the state reached, and what is left. -/
def run : State → List Char → State × List Char
  | s, [] => (s, [])
  | s, c :: cs =>
    match s.step? c with
    | some next => run next cs
    | none => (s, c :: cs)

/-- Why `text` is no numeral when `c` and `rest` are left in state `s`. All characters read before
`c` are ASCII, so their number is the byte offset of `c`. -/
def refusal (text : String) (s : State) (c : Char) (rest : List Char) : NumberError :=
  if s = .zero ∧ c.isDigit then .leadingZero text
  else .unexpectedChar text (text.toList.length - (rest.length + 1)) c s.expected

/-- Accepts exactly the numerals. -/
def validate (text : String) : Except NumberError Unit :=
  if text.toList = [] then .error .empty
  else
    match run .start text.toList with
    | (s, []) => if s.accepting then .ok () else .error (.unexpectedEnd text s.expected)
    | (s, c :: rest) => .error (refusal text s c rest)

end JsonTree.Numeral
