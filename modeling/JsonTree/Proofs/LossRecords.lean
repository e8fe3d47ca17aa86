import JsonTree.Proofs.IntegerReading
import JsonTree.Proofs.WaysToData

/-!
# What conversions report

Making the datum of a document reports every number that is not kept: a text that is no number, which
becomes null, and a magnitude past the finite range, which becomes the largest finite value. The
reports come in document order, one for each such number and none for the others, whichever way the
datum is made. Making a safe document reports the refusal, if there is one. A document whose texts are
all accepted has only finite numbers, so nothing is lost in its datum and nothing is reported.

- `Number.reading_of_infinity`, `Number.reading_of_nan`: a text without a finite float is no integer
  either.
- `Number.Reports`: the lines that a number calls for, by what its float is and what it becomes;
  `Number.reports_losses`: they are the lines of its losses.
- `Document.records_toDatum`: the records of a document are those of its numbers, in order.
- `Document.records_tell_losses`: the records of all conversions.
-/

namespace JsonTree

/-! ## Lines -/

namespace LogRecord

/-- A lost number is traced with its text. -/
theorem line_trace (text loss : String) :
    "TRACE" ++ " " ++ String.ofList ("number text ".toList ++ Text.quoted text ++ loss.toList)
      = "TRACE number text " ++ String.ofList (Text.quoted text) ++ loss := by
  have hstart : "TRACE number text " = "TRACE" ++ " " ++ "number text " := by decide
  simp only [hstart, String.ofList_append, String.ofList_toList, String.append_assoc]

/-- The line of a text that became null. -/
theorem line_unreadable (text : String) :
    (unreadable text).line = "TRACE number text " ++ String.ofList (Text.quoted text) ++
      " has no native reading" := line_trace text _

/-- The line of a text that became the largest finite value. -/
theorem line_saturates (text : String) :
    (saturates text).line = "TRACE number text " ++ String.ofList (Text.quoted text) ++
      " saturates" := line_trace text _

/-- The line of a refusal names the policy and the cause. -/
theorem line_refused (e : NumberError) :
    (refused e).line = "DEBUG unchecked tree refused by the safe policy: " ++ e.message := by
  have hstart : "DEBUG unchecked tree refused by the safe policy: "
      = "DEBUG" ++ " " ++ "unchecked tree refused by the " ++ "safe" ++ " policy: " := by decide
  show "DEBUG" ++ " " ++ String.ofList ("unchecked tree refused by the ".toList ++ "safe".toList ++
    " policy: ".toList ++ e.messageChars) = _
  simp only [hstart, String.ofList_append, String.ofList_toList, String.append_assoc,
    NumberError.message]

end LogRecord

/-! ## One number -/

namespace Number

variable {p : Policy}

/-- A text without a finite float is no integer either. -/
theorem no_integer_of_nonFinite {n : Number p} {w : NonFinite} (h : n.toBinary64 = .nonFinite w) :
    n.signed?.or n.unsigned? = none := by
  refine Option.eq_none_iff_forall_ne_some.2 fun k hk => ?_
  have hread : n.signed? = some k ∨ n.unsigned? = some k :=
    (Option.or_eq_some_iff.1 hk).imp_right And.right
  obtain ⟨x, hx, -⟩ := closest_of_integerDenotes (integerDenotes_of_read hread)
    k.nativeInt.abs_lt_overflowBound
  cases h.symm.trans hx

/-- A text whose float is infinite is read as an overflow, since it is no integer. -/
theorem reading_of_infinity {n : Number p} {neg : Bool} (h : n.toBinary64 = .infinity neg) :
    n.reading = .overflow neg := by
  unfold reading
  rw [no_integer_of_nonFinite h, h]

/-- A text whose float is no number is not read at all, since it is no integer. -/
theorem reading_of_nan {n : Number p} (h : n.toBinary64 = .nan) : n.reading = .unreadable := by
  unfold reading
  rw [no_integer_of_nonFinite h, h]

/-- The lines that making the datum of a number calls for: none, if its float is finite and a machine
number stands for it; one that names its text, if it becomes null, or if its float is an infinity and
it becomes the largest finite value of that sign. -/
inductive Reports (n : Number p) : List String → Prop
  | kept {x : Finite64} {m : MachineNumber} (finite : n.toBinary64 = .finite x)
    (datum : n.datum = .num m) : Reports n []
  | unreadable (datum : n.datum = .null) :
    Reports n ["TRACE number text " ++ String.ofList (Text.quoted n.text) ++
      " has no native reading"]
  | saturates {neg : Bool} (infinite : n.toBinary64 = .infinity neg)
    (datum : n.datum = .num (.float (.extreme neg))) :
    Reports n ["TRACE number text " ++ String.ofList (Text.quoted n.text) ++ " saturates"]

/-- A text whose float is finite loses nothing, whether it is an integer or not. -/
theorem losses_of_finite {n : Number p} {x : Finite64} (h : n.toBinary64 = .finite x) :
    n.losses = [] := by
  obtain ⟨m, hm⟩ := exists_reading h
  exact congrArg Logged.records (toDatum_of_reading hm)

/-- The lines of what the datum of a number does not keep are the lines that are called for. -/
theorem reports_losses (n : Number p) : n.Reports (n.losses.map LogRecord.line) := by
  match hfloat : n.toBinary64 with
  | .finite x =>
    obtain ⟨m, hm⟩ := exists_reading hfloat
    rw [losses_of_finite hfloat]
    exact .kept hfloat (datum_of_reading hm)
  | .nonFinite (.infinity neg) =>
    have hreading := reading_of_infinity hfloat
    have hlosses : n.losses = [.saturates n.text] := by
      unfold losses
      rw [hreading]
    have hdatum : n.datum = .num (.float (.extreme neg)) := by
      unfold datum
      rw [hreading, Reading.machine?]
    rw [hlosses, List.map_singleton, LogRecord.line_saturates]
    exact .saturates hfloat hdatum
  | .nonFinite .nan =>
    have hreading := reading_of_nan hfloat
    have hlosses : n.losses = [.unreadable n.text] := by
      unfold losses
      rw [hreading]
    have hdatum : n.datum = .null := by
      unfold datum
      rw [hreading, Reading.machine?]
    rw [hlosses, List.map_singleton, LogRecord.line_unreadable]
    exact .unreadable hdatum

end Number

/-! ## Whole documents -/

namespace Document

open JsonTree.Tree

variable {p : Policy}

/-- The records of a document are those of its numbers, in order. -/
theorem records_toDatum (t : Document p) : t.toDatum.records = t.numbers.flatMap Number.losses :=
  records_traverse Members.ofSets Number.toDatum t

/-- Texts that are accepted lose nothing. -/
theorem records_of_accepted {t : Document p} (h : ∀ n ∈ t.numbers, Numeral.check n.text = .ok ()) :
    t.toDatum.records = [] := by
  rw [records_toDatum, List.flatMap_eq_nil_iff]
  intro n hn
  obtain ⟨-, x, hx⟩ := (Numeral.check_eq_ok_iff n.text).1 (h n hn)
  exact Number.losses_of_finite hx

theorem records_toSafe (t : Document .unchecked) :
    t.toSafe.records = match t.toSafe.value with
      | .ok _ => []
      | .error e => [.refused e] := by
  unfold toSafe
  cases convert .safe t with
  | ok u => rfl
  | error e => rfl

/-- The records tell what is lost, and nothing else. Making the datum of a document, in either way,
reports its numbers in document order: each one calls for its own lines, by its float and by what
stands in its place in the datum. Making a safe document reports the error if it fails, in one line,
and nothing if it succeeds; and then nothing is lost in the datum either. -/
theorem records_tell_losses (t : Document .unchecked) :
    (∃ portions, List.Forall₂ Number.Reports t.numbers portions ∧
      t.toDatum.records.map LogRecord.line = portions.flatten) ∧
    (t.Keyed → Corresponds (fun n d => d = n.datum) t t.toDatum.value) ∧
    t.intoDatum = t.toDatum ∧
    (∀ u, t.toSafe.value = .ok u →
      t.toSafe.records = [] ∧ t.toDatum.records = [] ∧ t.intoDatum.records = []) ∧
    ∀ e, t.toSafe.value = .error e → t.toSafe.records.map LogRecord.line
      = ["DEBUG unchecked tree refused by the safe policy: " ++ e.message] := by
  refine ⟨⟨t.numbers.map fun n => n.losses.map LogRecord.line, ?_, ?_⟩, fun ht => ?_,
    intoDatum_eq_toDatum t, fun u hu => ?_, fun e he => ?_⟩
  · rw [List.forall₂_map_right_iff, List.forall₂_same]
    exact fun n _ => n.reports_losses
  · rw [records_toDatum, List.map_flatMap, List.flatMap_def]
  · rw [toDatum_value_keyed ht]
    exact corresponds_rebuild fun n _ => rfl
  · have hrecords : t.toSafe.records = [] := by rw [records_toSafe, hu]
    rw [value_toSafe] at hu
    have hdatum := records_of_accepted ((exists_convert_iff .safe t).1 ⟨u, hu⟩)
    exact ⟨hrecords, hdatum, (congrArg Logged.records (intoDatum_eq_toDatum t)).trans hdatum⟩
  · rw [records_toSafe, he, List.map_singleton, LogRecord.line_refused]

/-- Numbers that are lost, each in another way, beside one that the safe policy refuses although it
is kept. -/
def lossy : Document .unchecked :=
  .obj [("b", .arr [.num ⟨"007"⟩, .num ⟨"1e400"⟩]), ("a", .num ⟨"o\"ne"⟩), ("", .num ⟨"-inf"⟩)]

/-- Numbers that lose their spelling only. -/
def lossless : Document .unchecked :=
  .arr [.num ⟨"1.50"⟩, .obj [("", .num ⟨"1e-400"⟩)]]

theorem records_tell_losses_lossy :
    lossy.Keyed ∧ Corresponds (fun n d => d = n.datum) lossy lossy.toDatum.value ∧
      (∃ portions, List.Forall₂ Number.Reports lossy.numbers portions ∧
        lossy.toDatum.records.map LogRecord.line = portions.flatten) ∧
      lossy.toDatum.records = [.saturates "1e400", .unreadable "o\"ne", .saturates "-inf"] ∧
      lossy.toSafe.value = .error (.leadingZero "007") ∧
      lossy.toSafe.records.map LogRecord.line
        = ["DEBUG unchecked tree refused by the safe policy: " ++
          (NumberError.leadingZero "007").message] ∧
      ∃ u, lossless.toSafe.value = .ok u ∧ lossless.toSafe.records = [] ∧
        lossless.toDatum.records = [] := by
  have hkeyed : lossy.Keyed := by
    simp [lossy, Keyed, ItemsKeyed, MembersKeyed, Members.keys]
  have herror : lossy.toSafe.value = .error (.leadingZero "007") := by
    rw [value_toSafe, convert_eq_error_iff]
    exact ⟨[], ⟨"007"⟩, _, rfl, List.forall_mem_nil _, by decide +kernel⟩
  have haccepted : ∀ n ∈ lossless.numbers, Policy.checkText .safe n.text = .ok () := by
    decide +kernel
  obtain ⟨u, hu⟩ := (exists_convert_iff .safe lossless).2 haccepted
  rw [← value_toSafe] at hu
  obtain ⟨hportions, hplaces, -, -, hrefused⟩ := records_tell_losses lossy
  obtain ⟨-, -, -, hsilent, -⟩ := records_tell_losses lossless
  obtain ⟨hsafe, hdatum, -⟩ := hsilent u hu
  exact ⟨hkeyed, hplaces hkeyed, hportions, by decide +kernel, herror, hrefused _ herror, u, hu,
    hsafe, hdatum⟩

end Document

end JsonTree
