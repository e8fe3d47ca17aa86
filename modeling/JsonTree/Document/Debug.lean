import JsonTree.Document.Basic

/-!
# Debug text

A document shown with its constructors, on one line or with a line for every part.

- `Display`: a text, or labelled parts between brackets.
- `Display.compact`, `Display.pretty`: the two layouts.
- `Document.display`: what is shown of a document.
-/

namespace JsonTree

/-- What is shown: a text, or parts between brackets, each behind a label that may be empty. -/
inductive Display where
  | text (cs : List Char)
  | group (opening : List Char) (parts : List (List Char × Display)) (closing : List Char)

namespace Display

mutual

/-- All on one line, followed by `rest`. -/
def compact : Display → List Char → List Char
  | .text cs, rest => cs ++ rest
  | .group opening parts closing, rest => opening ++ compactParts parts (closing ++ rest)

/-- Parts with a comma and a space between them, followed by `rest`. -/
def compactParts : List (List Char × Display) → List Char → List Char
  | [], rest => rest
  | (label, part) :: parts, rest =>
    label ++ compact part
      (if parts.isEmpty then rest else ',' :: ' ' :: compactParts parts rest)

end

/-- The indentation of a level: four spaces for each. -/
def indent (level : Nat) : List Char := List.replicate (4 * level) ' '

mutual

/-- Every part on a line of its own, one level deeper than its brackets; brackets without parts
stay together. -/
def pretty : Display → Nat → List Char → List Char
  | .text cs, _, rest => cs ++ rest
  | .group opening parts closing, level, rest =>
    opening ++
      if parts.isEmpty then closing ++ rest
      else '\n' :: prettyParts parts (level + 1) (indent level ++ closing ++ rest)

/-- A line for each part, ended by a comma, followed by `rest`. -/
def prettyParts : List (List Char × Display) → Nat → List Char → List Char
  | [], _, rest => rest
  | (label, part) :: parts, level, rest =>
    indent level ++ label ++ pretty part level (',' :: '\n' :: prettyParts parts level rest)

end

/-- A constructor around one part. -/
def wrapped (name : String) (part : Display) : Display :=
  .group (name.toList ++ ['(']) [([], part)] [')']

end Display

namespace Document

variable {p : Policy}

mutual

/-- What is shown of a document. -/
def display : Document p → Display
  | .null => .text "Null".toList
  | .bool b => .wrapped "Boolean" (.text (if b then "true".toList else "false".toList))
  | .str s => .wrapped "String" (.text (Text.quoted s))
  | .num n => .wrapped "Number" (.wrapped "JNumber" (.text (Text.quoted n.text)))
  | .arr items => .wrapped "Array" (.wrapped "JArray" (.group ['['] (displayItems items) [']']))
  | .obj members =>
    .wrapped "Object"
      (.wrapped "JObject" (.group ['\x7b'] (displayMembers members) ['\x7d']))

/-- What is shown of items. -/
def displayItems : List (Document p) → List (List Char × Display)
  | [] => []
  | t :: ts => ([], display t) :: displayItems ts

/-- What is shown of members: each behind its quoted key. -/
def displayMembers : List (String × Document p) → List (List Char × Display)
  | [] => []
  | (k, t) :: ms => (Text.quoted k ++ [':', ' '], display t) :: displayMembers ms

end

/-- The debug text on one line. -/
def compactDebug (t : Document p) : String := String.ofList (t.display.compact [])

/-- The debug text over several lines. -/
def prettyDebug (t : Document p) : String := String.ofList (t.display.pretty 0 [])

end Document

end JsonTree
