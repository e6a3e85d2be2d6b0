import LoaderBench.Proofs.Json.Truncated
import LoaderBench.Proofs.Log.Schema

/-!
# Lines that end too early

A line of a record that lost its end, be it one character or all of them, is not valid. It has the one
violation that it is no JSON text, and what is wrong with it as such is that it ends.
-/

namespace LoaderBench.Log

open LoaderBench.Json

variable {text : String}

theorem cut_line {e : Entry} (hbegins : text.toList <+: e.line.toList) (hne : text ≠ e.line) :
    Cut text.toList (compactText (.object e.members)) := by
  have hline : e.line.toList = compactText (.object e.members) := String.toList_ofList
  rcases cut_or_eq_of_prefix hbegins with hcut | hwhole
  · rwa [hline] at hcut
  · exact absurd (String.toList_inj.mp hwhole) hne

/-- Whatever is left of a record's line, if it is not all of it, is refused because the text ends. -/
theorem torn_line_is_refused {e : Entry} (hbegins : text.toList <+: e.line.toList)
    (hne : text ≠ e.line) (number : UInt64) :
    ∃ violation, validate text number = .error [violation] ∧ violation.line = number ∧
      violation.flaw.field = "<json>" ∧
      ∃ error, violation.flaw = .malformed error ∧ error.category = .ended := by
  obtain ⟨error, hparse, hended⟩ := parse_cut e.flat_members (cut_line hbegins hne)
  exact ⟨⟨number, .malformed error⟩, validate_malformed hparse number, rfl, rfl, error, rfl, hended⟩

/-- A record whose line ends in a number. -/
def codedRecord : Entry :=
  ⟨"t", "x", .warn, "\x01", none, none, none, none, none, some (-12), none, none⟩

/-- The line of the record, broken off between the digits of its last number. -/
def codedRemains : String :=
  "\x7b\"timestamp\":\"t\",\"trace_id\":\"x\",\"level\":\"warn\",\"event\":\"\\u0001\",\"os_code\":-1"

theorem shortened_number_is_refused :
    codedRemains.toList <+: codedRecord.line.toList ∧ codedRemains ≠ codedRecord.line ∧
      ∃ violation, validate codedRemains 7 = .error [violation] ∧ violation.line = 7 ∧
        violation.flaw.field = "<json>" := by
  have hbegins : codedRemains.toList <+: codedRecord.line.toList := by decide +kernel
  have hne : codedRemains ≠ codedRecord.line := by decide +kernel
  obtain ⟨violation, hvalid, hline, hfield, -⟩ := torn_line_is_refused hbegins hne 7
  exact ⟨hbegins, hne, violation, hvalid, hline, hfield⟩

end LoaderBench.Log
