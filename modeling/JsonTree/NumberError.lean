import JsonTree.Binary64.Basic
import JsonTree.Text.Quoted

/-!
# Why a number is refused

- `NumberError`: the causes.
- `NumberError.message`: the wording.
- `NumberError.literal?`: the refused text, where a text was refused.
-/

namespace JsonTree

/-- What would have been accepted where a numeral goes wrong. -/
inductive Expectation where
  | digit
  | endOfNumber
deriving DecidableEq

/-- The wording of an expectation. -/
def Expectation.phrase : Expectation → String
  | .digit => "a digit"
  | .endOfNumber => "end of number"

/-- Why a text or a value is refused as a number. -/
inductive NumberError where
  /-- The text is empty. -/
  | empty
  /-- The character `found`, `offset` bytes into the text, cannot stand there. -/
  | unexpectedChar (literal : String) (offset : Nat) (found : Char) (expected : Expectation)
  /-- The text stops where more is needed. -/
  | unexpectedEnd (literal : String) (expected : Expectation)
  /-- A digit follows a leading zero. -/
  | leadingZero (literal : String)
  /-- The number has no finite binary64 value. -/
  | outOfRange (literal : String)
  /-- The value is an infinity or a NaN. -/
  | nonFinite (value : NonFinite)
deriving DecidableEq

/-- The name of a value that is not finite. -/
def NonFinite.display : NonFinite → String
  | .infinity false => "inf"
  | .infinity true => "-inf"
  | .nan => "NaN"

namespace NumberError

/-- The refused text; a refused value has none. -/
def literal? : NumberError → Option String
  | .empty => some ""
  | .unexpectedChar literal _ _ _ => some literal
  | .unexpectedEnd literal _ => some literal
  | .leadingZero literal => some literal
  | .outOfRange literal => some literal
  | .nonFinite _ => none

/-- The characters of the message. -/
def messageChars : NumberError → List Char
  | .empty => "empty number literal".toList
  | .unexpectedChar literal offset found expected =>
    "unexpected ".toList ++ Text.quotedChar found ++ " at offset ".toList ++
      Nat.toDigits 10 offset ++ " in number literal ".toList ++ Text.quoted literal ++
      ", expected ".toList ++ expected.phrase.toList
  | .unexpectedEnd literal expected =>
    "number literal ".toList ++ Text.quoted literal ++ " ends early, expected ".toList ++
      expected.phrase.toList
  | .leadingZero literal => "leading zero in number literal ".toList ++ Text.quoted literal
  | .outOfRange literal =>
    "number literal ".toList ++ Text.quoted literal ++
      " overflows the finite numeric range".toList
  | .nonFinite value => value.display.toList ++ " is not a finite number".toList

/-- The message. -/
def message (e : NumberError) : String := String.ofList e.messageChars

end NumberError

end JsonTree
