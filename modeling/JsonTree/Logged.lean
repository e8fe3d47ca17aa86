import JsonTree.Policy

/-!
# Conversions that keep a record

- `LogRecord`: what a conversion reports, with its level and its wording.
- `Logged`: a value together with the records made on the way to it, in order.
-/

namespace JsonTree

/-- What a conversion reports. -/
inductive LogRecord where
  /-- A number text that is no number was replaced by null. -/
  | unreadable (text : String)
  /-- A number text past the finite range was replaced by the largest finite value. -/
  | saturates (text : String)
  /-- A tree was refused by the safe policy. -/
  | refused (error : NumberError)
deriving DecidableEq

namespace LogRecord

/-- The level of a record: a lost number is a trace, a refused tree is for debugging. -/
def level : LogRecord → String
  | .unreadable _ => "TRACE"
  | .saturates _ => "TRACE"
  | .refused _ => "DEBUG"

/-- The characters of the message. -/
def messageChars : LogRecord → List Char
  | .unreadable text => "number text ".toList ++ Text.quoted text ++ " has no native reading".toList
  | .saturates text => "number text ".toList ++ Text.quoted text ++ " saturates".toList
  | .refused error =>
    "unchecked tree refused by the ".toList ++ Policy.safe.name.toList ++ " policy: ".toList ++
      error.messageChars

/-- The level and the message. -/
def line (r : LogRecord) : String := r.level ++ " " ++ String.ofList r.messageChars

end LogRecord

/-- A value and the records made on the way to it, the earliest first. -/
structure Logged (α : Type) where
  value : α
  records : List LogRecord
deriving DecidableEq

namespace Logged

/-- A value with no record. -/
def silent {α : Type} (a : α) : Logged α := ⟨a, []⟩

/-- Goes on with the value; the later records follow the earlier ones. -/
def andThen {α β : Type} (x : Logged α) (f : α → Logged β) : Logged β :=
  let y := f x.value
  ⟨y.value, x.records ++ y.records⟩

instance : Monad Logged where
  pure := silent
  bind := andThen

@[simp] theorem value_pure {α : Type} (a : α) : (pure a : Logged α).value = a := rfl

@[simp] theorem records_pure {α : Type} (a : α) : (pure a : Logged α).records = [] := rfl

@[simp] theorem value_bind {α β : Type} (x : Logged α) (f : α → Logged β) :
    (x >>= f).value = (f x.value).value := rfl

/-- Records are only ever added behind the earlier ones. -/
@[simp] theorem records_bind {α β : Type} (x : Logged α) (f : α → Logged β) :
    (x >>= f).records = x.records ++ (f x.value).records := rfl

/-- A loop makes the records of its passes, in order. -/
theorem records_forM {α : Type} (f : α → Logged Unit) (as : List α) :
    (forM as f).records = as.flatMap fun a => (f a).records := by
  induction as with
  | nil => rfl
  | cons a as ih => rw [List.forM_cons, records_bind, ih, List.flatMap_cons]

/-- A value and its records are all there is. -/
@[ext] theorem ext {α : Type} {x y : Logged α} (value : x.value = y.value)
    (records : x.records = y.records) : x = y := by
  cases x
  cases y
  simp_all

/-- Changing the value alone makes no record. -/
@[simp] theorem map_eq {α β : Type} (f : α → β) (x : Logged α) :
    f <$> x = ⟨f x.value, x.records⟩ := ext rfl (List.append_nil _)

instance : LawfulMonad Logged := LawfulMonad.mk' Logged
  (fun x => by simp)
  (fun a f => ext rfl rfl)
  (fun x f g => ext rfl (List.append_assoc ..))

end Logged

end JsonTree
