import JsonTree.Document.Data
import JsonTree.JsonText.Builder
import JsonTree.JsonText.Lexer
import JsonTree.JsonText.Writer

/-!
# Reading JSON

- `Datum.ofJsonText`: the datum of a JSON text.
- `Document.ofJsonText`, `Number.ofJsonText`: the document, or the number, of a JSON text.
- `Document.deserialize`, `Number.deserialize`: the same from a datum.
- `Document.serialize?`: a document's tokens, built into a datum.
-/

namespace JsonTree

/-- Why reading fails. -/
inductive ReadError where
  /-- The text is no JSON text, or one that is not supported. -/
  | text
  /-- The text is JSON, but not of what is wanted. -/
  | data
deriving DecidableEq

/-- How deep brackets may nest in a text. -/
def nestingLimit : Nat := 127

/-- The datum of a JSON text. -/
def Datum.ofJsonText (s : String) : Except ReadError Datum :=
  let lexed := Token.lex s
  if lexed.complete ∧ Token.nesting lexed.tokens ≤ nestingLimit then
    match Datum.ofTokens? lexed.tokens with
    | some d => .ok d
    | none => .error .text
  else .error .text

/-- A refusal by the policy makes the data unfit. -/
def refusedAsData {α : Type} : Except NumberError α → Except ReadError α
  | .ok a => .ok a
  | .error _ => .error .data

namespace Document

/-- The document of a JSON text. -/
def ofJsonText (p : Policy) (s : String) : Except ReadError (Document p) := do
  refusedAsData (ofDatum p (← Datum.ofJsonText s))

/-- The datum that a document's tokens build. -/
def serialize? {p : Policy} (t : Document p) : Option Datum := Datum.ofTokens? (tokens t)

/-- The document of a datum, read through the datum's tokens. -/
def deserialize (p : Policy) (d : Datum) : Except ReadError (Document p) :=
  match Datum.ofTokens? d.tokens with
  | some e => refusedAsData (ofDatum p e)
  | none => .error .data

end Document

namespace Number

/-- The number of a JSON text. The first token decides whether the text holds a number at all:
where another value begins, what follows it is not looked at. -/
def ofJsonText (p : Policy) (s : String) : Except ReadError (Number p) :=
  let lexed := Token.lex s
  match lexed.tokens with
  | [.num m] => if lexed.complete then refusedAsData (ofMachine p m) else .error .text
  | .openArray :: _ => .error .data
  | .openObject :: _ => .error .data
  | .null :: _ => .error .data
  | .bool _ :: _ => .error .data
  | .str _ :: _ => .error .data
  | _ => .error .text

/-- The number of a datum that is one. -/
def deserialize (p : Policy) : Datum → Except ReadError (Number p)
  | .num m => refusedAsData (ofMachine p m)
  | _ => .error .data

end Number

end JsonTree
