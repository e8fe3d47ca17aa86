import JsonTree.Document.Data
import JsonTree.JsonText.Token

/-!
# Writing compact JSON text

- `Token.spell`: the characters of one token.
- `Token.text`: a sequence of tokens as text, without white space.
- `Datum.tokens`, `Document.tokens`: what is written of a datum and of a document.
- `Datum.jsonText`, `Document.jsonText`: the texts.
-/

namespace JsonTree

/-- One character of a string: quotes, backslashes and the characters below the space are escaped,
by a letter where there is one, and everything else stands for itself. -/
def escapeJson (c : Char) : List Char :=
  if c = '"' then ['\\', '"']
  else if c = '\\' then ['\\', '\\']
  else if c = '\x08' then ['\\', 'b']
  else if c = '\x0c' then ['\\', 'f']
  else if c = '\n' then ['\\', 'n']
  else if c = '\r' then ['\\', 'r']
  else if c = '\t' then ['\\', 't']
  else if c < ' ' then
    ['\\', 'u', '0', '0', (c.toNat / 16).digitChar, (c.toNat % 16).digitChar]
  else [c]

namespace Token

/-- The characters of a token. -/
def spell : Token → List Char
  | .openArray => ['[']
  | .closeArray => [']']
  | .openObject => ['\x7b']
  | .closeObject => ['\x7d']
  | .comma => [',']
  | .colon => [':']
  | .null => "null".toList
  | .bool true => "true".toList
  | .bool false => "false".toList
  | .str s => '"' :: s.toList.flatMap escapeJson ++ ['"']
  | .num m => m.spell

/-- The text of a sequence of tokens. -/
def text (tokens : List Token) : String := String.ofList (tokens.flatMap spell)

end Token

/-- The token that a number of a document is written as: the machine number that stands for its
text, or null. -/
def Number.token {p : Policy} (n : Number p) : Token :=
  match n.reading.machine? with
  | some m => .num m
  | none => .null

/-- The tokens of a datum. -/
def Datum.tokens (d : Datum) : List Token := Tree.tokens .num d []

/-- The tokens of a document. -/
def Document.tokens {p : Policy} (t : Document p) : List Token := Tree.tokens Number.token t []

/-- The compact JSON text of a datum. -/
def Datum.jsonText (d : Datum) : String := Token.text d.tokens

/-- The compact JSON text of a document. -/
def Document.jsonText {p : Policy} (t : Document p) : String := Token.text (Document.tokens t)

end JsonTree
