import JsonTree.JsonText.Writer
import JsonTree.Recipe

/-!
# Sessions

A session runs steps one after the other. Step `i` leaves its result in register `i`, where later
steps find it; a step that fails, or that only looks at a value, leaves nothing there.

- `Register`: what a register holds: a document under either policy, or a datum.
- `Step`: the operations; `Answer` and `Failure`: how one ends.
- `Step.run`: one step over the registers before it.
- `Session.run`: the answers to a list of steps.
-/

namespace JsonTree

/-- What a register holds. -/
inductive Register where
  | document (p : Policy) (t : Document p)
  | datum (d : Datum)

/-- An operation; its operands are numbers of registers. -/
inductive Step where
  | build (p : Policy) (recipe : Recipe)
  | datum (d : Datum)
  /-- An array of the registers' documents. -/
  | array (p : Policy) (items : List Nat)
  /-- An object in which a repeated key stands at its last place. -/
  | object (p : Policy) (entries : List (String × Nat))
  /-- An object in which a repeated key stands at its first place. -/
  | map (p : Policy) (entries : List (String × Nat))
  | toDatum (r : Nat)
  | intoDatum (r : Nat)
  | ofDatum (p : Policy) (r : Nat)
  | toSafe (r : Nat)
  | toUnchecked (r : Nat)
  | get (r : Nat) (key : String)
  | item (r : Nat) (index : Nat)
  /-- The number with the canonical text of a number's reading. -/
  | respell (r : Nat)
  | concat (r s : Nat)
  | reverse (r : Nat)
  | same (r s : Nat)
  | kind (r : Nat)
  | length (r : Nat)
  | keys (r : Nat)
  | text (r : Nat)

/-- How a step ends well. -/
inductive Answer where
  /-- A value, which stays in the step's register. -/
  | value (r : Register)
  /-- A lookup found nothing. -/
  | absent
  | same (equal : Bool)
  | kind (k : Kind)
  /-- The number of items or members, none for a scalar. -/
  | length (n : Option Nat)
  /-- The keys of an object, none for anything else. -/
  | keys (ks : Option (List String))
  | text (s : String)

/-- Why a step fails. -/
inductive Failure where
  /-- An operand is missing or not of the kind that the step needs. -/
  | wrongKind
  /-- A number is refused. -/
  | refused (e : NumberError)
deriving DecidableEq

/-- A refused number fails the step. -/
def Failure.ofRefusal {α : Type} : Except NumberError α → Except Failure α
  | .ok a => .ok a
  | .error e => .error (.refused e)

/-- Anything missing fails the step as the wrong kind. -/
def Failure.needed {α : Type} : Option α → Except Failure α
  | some a => .ok a
  | none => .error .wrongKind

/-- The number with the canonical text of a number's reading, if the policy lets it be held. -/
def Number.respell {p : Policy} (n : Number p) : Except NumberError (Number p) :=
  ofBinary64 p n.toBinary64

namespace Register

/-- The document, if it is one under policy `p`. -/
def documentOf? (p : Policy) : Register → Option (Document p)
  | .document q t => if h : q = p then some (h ▸ t) else none
  | .datum _ => none

/-- The datum, if it is one. -/
def datum? : Register → Option Datum
  | .document _ _ => none
  | .datum d => some d

end Register

/-- The registers in order; an empty one holds nothing. -/
abbrev Registers := List (Option Register)

namespace Registers

/-- What a register holds. -/
def held (regs : Registers) (r : Nat) : Except Failure Register :=
  Failure.needed (regs[r]?.join)

/-- The document in a register, which must be under policy `p`. -/
def documentOf (p : Policy) (regs : Registers) (r : Nat) : Except Failure (Document p) := do
  Failure.needed ((← regs.held r).documentOf? p)

/-- The document in a register, under whichever policy. -/
def document (regs : Registers) (r : Nat) : Except Failure ((p : Policy) × Document p) := do
  match ← regs.held r with
  | .document p t => return ⟨p, t⟩
  | .datum _ => throw .wrongKind

/-- The datum in a register. -/
def datum (regs : Registers) (r : Nat) : Except Failure Datum := do
  Failure.needed (← regs.held r).datum?

/-- The documents in registers under keys. -/
def entries (p : Policy) (regs : Registers) (es : List (String × Nat)) :
    Except Failure (List (String × Document p)) :=
  es.mapM fun (key, r) => do return (key, ← regs.documentOf p r)

end Registers

namespace Answer

/-- Answers with a document. -/
def document {p : Policy} (t : Document p) : Answer := .value (.document p t)

/-- Answers with a datum. -/
def datum (d : Datum) : Answer := .value (.datum d)

/-- Answers with what a lookup found. -/
def found {p : Policy} : Option (Document p) → Answer
  | some t => .document t
  | none => .absent

/-- What an answer leaves in the step's register. -/
def register? : Answer → Option Register
  | .value r => some r
  | _ => none

end Answer

namespace Step

/-- Runs one step over the registers before it. -/
def run (regs : Registers) : Step → Except Failure Answer
  | .build p recipe => return .document (← Failure.ofRefusal (recipe.build p))
  | .datum d => return .datum d
  | .array p items => return .document (.arr (← items.mapM (regs.documentOf p)))
  | .object p entries => return .document (.object (← regs.entries p entries))
  | .map p entries => return .document (.obj (Members.ofSets (← regs.entries p entries)))
  | .toDatum r => return .datum (← regs.document r).2.toDatum.value
  | .intoDatum r => return .datum (← regs.document r).2.intoDatum.value
  | .ofDatum p r => return .document (← Failure.ofRefusal (Document.ofDatum p (← regs.datum r)))
  | .toSafe r =>
    return .document (← Failure.ofRefusal (← regs.documentOf .unchecked r).toSafe.value)
  | .toUnchecked r => return .document (← regs.documentOf .safe r).toUnchecked
  | .get r key => return .found ((← regs.document r).2.get? key)
  | .item r index => return .found ((← regs.document r).2.item? index)
  | .respell r => do
    let ⟨_, t⟩ ← regs.document r
    let n ← Failure.needed t.num?
    return .document (.num (← Failure.ofRefusal n.respell))
  | .concat r s => do
    let ⟨p, t⟩ ← regs.document r
    let u ← regs.documentOf p s
    return .document (← Failure.needed (t.concat? u))
  | .reverse r => do
    let ⟨_, t⟩ ← regs.document r
    return .document (← Failure.needed t.reverse?)
  | .same r s => do
    match ← regs.held r with
    | .document p t => return .same (t.same (← regs.documentOf p s))
    | .datum d => return .same (d.same (← regs.datum s))
  | .kind r => return .kind (← regs.document r).2.kind
  | .length r => return .length (← regs.document r).2.length?
  | .keys r => return .keys ((← regs.document r).2.members?.map Members.keys)
  | .text r => return .text (← regs.document r).2.jsonText

end Step

namespace Session

/-- Runs steps over the registers filled before them, and collects their answers. -/
def runFrom (regs : Registers) : List Step → List (Except Failure Answer)
  | [] => []
  | step :: steps =>
    let answer := step.run regs
    let left := answer.toOption.bind Answer.register?
    answer :: runFrom (regs ++ [left]) steps

/-- The answers to steps that start with no registers. -/
def run (steps : List Step) : List (Except Failure Answer) := runFrom [] steps

end Session

end JsonTree
