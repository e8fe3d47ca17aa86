import JsonTree.Decimal.Reading
import JsonTree.JsonText.Token
import JsonTree.Numeral.Scan

/-!
# Splitting JSON text into tokens

The text is read one character at a time; the state says inside which token the reader stands.

- `MachineNumber.ofNumeral?`: the machine number of a numeral.
- `Lexer.step`: the state after one more character.
- `Token.lex`: the tokens of a text, and whether it holds nothing else.
-/

namespace JsonTree

/-- The machine number of a numeral: an integer where it has neither fraction nor exponent and
fits, except that `-0` is a float; else the nearest float, if that is finite. This assumes that floats
in JSON text are rounded correctly; the reader promises so only where it is built to read floats
exactly, which is not asked of it here, and may otherwise miss the nearest one in the last place. -/
def MachineNumber.ofNumeral? (cs : List Char) : Option MachineNumber :=
  let integer :=
    if cs = ['-', '0'] then none else (readInteger? cs).bind MachineInt.ofInt?
  match integer with
  | some n => some (.int n)
  | none => (Binary64.ofText (String.ofList cs)).finite?.map .float

/-- The value of a hexadecimal digit of either case. -/
def hexDigit? (c : Char) : Option Nat :=
  if c.isDigit then some (c.toNat - '0'.toNat)
  else if 'a' ≤ c ∧ c ≤ 'f' then some (c.toNat - 'a'.toNat + 10)
  else if 'A' ≤ c ∧ c ≤ 'F' then some (c.toNat - 'A'.toNat + 10)
  else none

/-- The characters that may stand between tokens. -/
def isJsonSpace (c : Char) : Bool := c = ' ' || c = '\t' || c = '\n' || c = '\r'

/-- What an escape letter stands for. -/
def unescapeLetter? (c : Char) : Option Char :=
  if c = '"' ∨ c = '\\' ∨ c = '/' then some c
  else if c = 'b' then some '\x08'
  else if c = 'f' then some '\x0c'
  else if c = 'n' then some '\n'
  else if c = 'r' then some '\r'
  else if c = 't' then some '\t'
  else none

namespace Lexer

/-- Inside which token the reader stands. Characters that have been read are kept last first. -/
inductive Mode where
  | between
  /-- In a word, with the letters that are still to come. -/
  | word (letters : List Char) (token : Token)
  /-- In a string. -/
  | string (done : List Char)
  /-- In a string, behind a backslash. -/
  | escape (done : List Char)
  /-- In a string, in a code unit of four hexadecimal digits, with the number of digits still to
  come and the value of those read; a high surrogate may be waiting for it. -/
  | unit (done : List Char) (high : Option Nat) (missing : Nat) (value : Nat)
  /-- In a string, behind a high surrogate. -/
  | surrogate (done : List Char) (high : Nat)
  /-- In a string, behind a high surrogate and a backslash. -/
  | surrogateEscape (done : List Char) (high : Nat)
  | number (state : Numeral.State) (done : List Char)
  /-- Behind a character that cannot stand where it does. -/
  | failed
deriving DecidableEq

/-- The mode, and the tokens that are complete, last first. -/
structure State where
  mode : Mode
  tokens : List Token

namespace State

/-- Stands between tokens, behind one more of them. -/
def emit (s : State) (token : Token) : State := ⟨.between, token :: s.tokens⟩

/-- Goes on in a mode. -/
def goto (s : State) (mode : Mode) : State := ⟨mode, s.tokens⟩

/-- A character between tokens. -/
def between (s : State) (c : Char) : State :=
  if isJsonSpace c then s.goto .between
  else if c = '[' then s.emit .openArray
  else if c = ']' then s.emit .closeArray
  else if c = '\x7b' then s.emit .openObject
  else if c = '\x7d' then s.emit .closeObject
  else if c = ',' then s.emit .comma
  else if c = ':' then s.emit .colon
  else if c = 'n' then s.goto (.word ['u', 'l', 'l'] .null)
  else if c = 't' then s.goto (.word ['r', 'u', 'e'] (.bool true))
  else if c = 'f' then s.goto (.word ['a', 'l', 's', 'e'] (.bool false))
  else if c = '"' then s.goto (.string [])
  else
    match Numeral.State.start.step? c with
    | some state => s.goto (.number state [c])
    | none => s.goto .failed

/-- The end of a number: its token, if the characters are a numeral in range. -/
def endNumber (s : State) (state : Numeral.State) (done : List Char) : State :=
  match if state.accepting then MachineNumber.ofNumeral? done.reverse else none with
  | some m => s.emit (.num m)
  | none => s.goto .failed

/-- A complete code unit: a high surrogate waits for a low one, which completes it; neither may
stand alone. -/
def endUnit (s : State) (done : List Char) (high : Option Nat) (value : Nat) : State :=
  let isLow := 0xDC00 ≤ value ∧ value < 0xE000
  match high with
  | some h =>
    if isLow then
      s.goto (.string (Char.ofNat (0x10000 + (h - 0xD800) * 0x400 + (value - 0xDC00)) :: done))
    else s.goto .failed
  | none =>
    if 0xD800 ≤ value ∧ value < 0xDC00 then s.goto (.surrogate done value)
    else if isLow then s.goto .failed
    else s.goto (.string (Char.ofNat value :: done))

end State

/-- The state after one more character. -/
def step (s : State) (c : Char) : State :=
  match s.mode with
  | .between => s.between c
  | .word [] _ => s.goto .failed
  | .word [l] token => if c = l then s.emit token else s.goto .failed
  | .word (l :: ls) token => if c = l then s.goto (.word ls token) else s.goto .failed
  | .string done =>
    if c = '"' then s.emit (.str (String.ofList done.reverse))
    else if c = '\\' then s.goto (.escape done)
    else if c < ' ' then s.goto .failed
    else s.goto (.string (c :: done))
  | .escape done =>
    if c = 'u' then s.goto (.unit done none 4 0)
    else
      match unescapeLetter? c with
      | some d => s.goto (.string (d :: done))
      | none => s.goto .failed
  | .unit done high missing value =>
    match hexDigit? c with
    | some d =>
      if missing ≤ 1 then s.endUnit done high (16 * value + d)
      else s.goto (.unit done high (missing - 1) (16 * value + d))
    | none => s.goto .failed
  | .surrogate done high =>
    if c = '\\' then s.goto (.surrogateEscape done high) else s.goto .failed
  | .surrogateEscape done high =>
    if c = 'u' then s.goto (.unit done (some high) 4 0) else s.goto .failed
  | .number state done =>
    match state.step? c with
    | some next => s.goto (.number next (c :: done))
    | none =>
      let after := s.endNumber state done
      if after.mode = .between then after.between c else after
  | .failed => s

/-- The state at the end of the text, where a number may end. -/
def finish (s : State) : State :=
  match s.mode with
  | .number state done => s.endNumber state done
  | _ => s

end Lexer

/-- The tokens of a text up to the first character that cannot stand where it does. -/
structure Lexed where
  tokens : List Token
  /-- Whether the whole text was read. -/
  complete : Bool

/-- Splits a text into tokens. -/
def Token.lex (s : String) : Lexed :=
  let last := Lexer.finish (s.toList.foldl Lexer.step ⟨.between, []⟩)
  ⟨last.tokens.reverse, last.mode = .between⟩

end JsonTree
