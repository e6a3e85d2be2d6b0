import LoaderBench.Proofs.Host.History
import LoaderBench.Proofs.Text.Ascii
import LoaderBench.Proofs.Text.Decimal
import LoaderBench.Proofs.Text.Lines

/-!
# The line that a call prints

A call prints its diagnostic behind a mark and with a line break at the end. The diagnostic quotes the
message of the loader, or a failure that was handed in, as it stands. So it is one line unless a quoted
text has a line break of its own, and it can be mistaken for that of a successful call in no other
case. Of a message only the bytes before its first NUL byte are quoted, and a line break in them is
shown whatever the bytes around it are.
-/

namespace LoaderBench.Loader

theorem Failure.break_mem_text_iff (failure : Failure) :
    '\n' ∈ failure.text.toList ↔ ∃ detail ∈ failure.detail, '\n' ∈ detail.toList := by
  have hsigned : '\n' ∉ (Text.signed failure.code.toInt).toList :=
    fun h => (Text.plain_of_mem_signed h).1 rfl
  cases hdetail : failure.detail with
  | none => simp [Failure.text, codeLabel, hdetail, hsigned]
  | some detail => simp [Failure.text, codeLabel, hdetail, hsigned]

/-- Whether a message has a line break in the part that is told, which ends at the first NUL byte. -/
def Mishap.Breaks (mishap : Mishap) : Prop :=
  ∃ message ∈ mishap.message, 10 ∈ message.takeWhile (· != 0)

theorem Machine.break_mem_detail_iff (m : Machine) (api : String) (mishap : Mishap) :
    (∃ detail ∈ (m.failureOf api mishap).detail, '\n' ∈ detail.toList) ↔ mishap.Breaks := by
  have hbyte (message : Bytes) :
      '\n' ∈ (messageText message).toList ↔ 10 ∈ message.takeWhile (· != 0) :=
    Utf8.mem_lossy_iff (by decide) (by decide) _
  cases hmessage : mishap.message with
  | none => simp [Machine.failureOf, Mishap.Breaks, hmessage]
  | some message => simp [Machine.failureOf, Mishap.Breaks, hmessage, hbyte]

end LoaderBench.Loader

namespace LoaderBench.Host

open LoaderBench.Loader LoaderBench.Log LoaderBench.Time

/-! ### Lines -/

/-- Whether the one line break of a text is its last character. -/
def IsOneLine (text : String) : Prop := ∃ line, text = line ++ "\n" ∧ '\n' ∉ line.toList

/-- The line that tells a number, as a successful call prints it. -/
def numberLine (i : Int) : String := "HOST: " ++ Fixture.idSymbol ++ "=" ++ Text.signed i

theorem isOneLine_append_iff (line : String) : IsOneLine (line ++ "\n") ↔ '\n' ∉ line.toList := by
  constructor
  · rintro ⟨line', heq, hline'⟩
    have hlists := congrArg String.toList heq
    rw [String.toList_append, String.toList_append] at hlists
    rwa [List.append_cancel_right hlists]
  · exact fun hline => ⟨line, rfl, hline⟩

theorem break_not_mem_numberLine (i : Int) : '\n' ∉ (numberLine i).toList := by
  have hsigned : '\n' ∉ (Text.signed i).toList := fun h => (Text.plain_of_mem_signed h).1 rfl
  have hmark : '\n' ∉ ("HOST: " ++ Fixture.idSymbol ++ "=").toList := by decide
  rw [numberLine, String.toList_append, List.mem_append]
  exact fun h => h.elim hmark hsigned

/-- The line of a number has one blank, which is the one of the mark. -/
theorem count_blank_numberLine (i : Int) : (numberLine i).toList.count ' ' = 1 := by
  have hsigned : (Text.signed i).toList.count ' ' = 0 :=
    List.count_eq_zero.mpr fun h => (Text.plain_of_mem_signed h).2 rfl
  have hmark : ("HOST: " ++ Fixture.idSymbol ++ "=").toList.count ' ' = 1 := by decide
  rw [numberLine, String.toList_append, List.count_append, hmark, hsigned]

/-! ### Quoted texts -/

namespace Error

/-- The texts of a failure that are quoted in its diagnostic. -/
def quoted : Error → List String
  | .usage => []
  | .load mode failure => failure.api :: mode :: failure.detail.toList
  | .resolve _ failure => failure.api :: failure.detail.toList

/-- A diagnostic has no line breaks but those of the texts it quotes. -/
theorem break_mem_text_iff (error : Error) :
    '\n' ∈ error.text.toList ↔ ∃ part ∈ error.quoted, '\n' ∈ part.toList := by
  cases error with
  | usage => decide
  | load mode failure => simp [text, quoted, Failure.break_mem_text_iff]
  | resolve symbol failure => simp [text, quoted, Failure.break_mem_text_iff]

theorem blank_mem_text (error : Error) : ' ' ∈ error.text.toList := by
  cases error <;> simp [text]

end Error

theorem break_mem_failureLine (error : Error) :
    '\n' ∈ (Session.failureLine error).toList ↔ ∃ part ∈ error.quoted, '\n' ∈ part.toList := by
  have hmark : '\n' ∉ "HOST: ".toList := by decide
  rw [Session.failureLine, String.toList_append, List.mem_append, Error.break_mem_text_iff]
  exact or_iff_right hmark

/-- The line of a failure is not that of a number, also if a carriage return at its end is dropped. -/
theorem numberLine_not_mem_lines {error : Error} (h : '\n' ∉ (Session.failureLine error).toList)
    (i : Int) : numberLine i ∉ Text.lines (Session.failureLine error ++ "\n") := by
  rw [Text.lines_line h, List.mem_singleton]
  intro heq
  have hcount := count_blank_numberLine i
  have hblanks : 0 < error.text.toList.count ' ' := List.count_pos_iff.mpr error.blank_mem_text
  have hmark : "HOST: ".toList.count ' ' = 1 := by decide
  rw [heq, String.toList_ofList, List.count_reverse, Text.count_withoutReturn (by decide),
    List.count_reverse, Session.failureLine, String.toList_append, List.count_append, hmark] at hcount
  omega

/-! ### Calls -/

/-- Whether a text that the diagnostic of a call quotes has a line break: a text of the failure handed
in, or the message of the loader call that failed. -/
def Breaks (m : Machine) : Call → Prop
  | .fail error => ∃ part ∈ error.quoted, '\n' ∈ part.toList
  | .execute target => Nameable target.bytes ∧
    match m.image? target.bytes with
    | none => m.openMishap.Breaks
    | some image => image.symbols.lookup fixtureSymbol = none ∧ image.lookupMishap.Breaks

theorem break_not_mem_mode (target : Target) : '\n' ∉ target.mode.toList := by
  cases target with
  | fullPath path =>
    show '\n' ∉ "fullpath".toList
    decide
  | name file =>
    show '\n' ∉ "name".toList
    decide

theorem break_mem_quoted_load (m : Machine) (target : Target) (mishap : Mishap) :
    (∃ part ∈ (Error.load target.mode (m.failureOf loadApi mishap)).quoted, '\n' ∈ part.toList) ↔
      mishap.Breaks := by
  have hapi : '\n' ∉ (m.failureOf loadApi mishap).api.toList := by
    show '\n' ∉ loadApi.toList
    decide
  rw [← m.break_mem_detail_iff loadApi mishap]
  simp [Error.quoted, hapi, break_not_mem_mode]

theorem break_mem_quoted_resolve (m : Machine) (symbol : String) (mishap : Mishap) :
    (∃ part ∈ (Error.resolve symbol (m.failureOf resolveApi mishap)).quoted, '\n' ∈ part.toList) ↔
      mishap.Breaks := by
  have hapi : '\n' ∉ (m.failureOf resolveApi mishap).api.toList := by
    show '\n' ∉ resolveApi.toList
    decide
  rw [← m.break_mem_detail_iff resolveApi mishap]
  simp [Error.quoted, hapi]

theorem Course.break_mem_iff {m : Machine} {target : Target} {outcome : Except Error Completed}
    {calls : List Event} (hc : Course target m outcome calls) :
    '\n' ∈ (lineOf outcome).toList ↔ Breaks m (.execute target) := by
  cases hc with
  | empty hn =>
    have hname : ¬ Nameable target.bytes := fun hname => hname.1 hn
    simp [lineOf, break_mem_failureLine, Error.quoted, Breaks, hname, break_not_mem_mode, loadApi]
  | nul h0 =>
    have hname : ¬ Nameable target.bytes := fun hname => hname.2 h0
    simp [lineOf, break_mem_failureLine, Error.quoted, Breaks, hname, break_not_mem_mode, loadApi]
  | absent hn hi =>
    rw [lineOf, break_mem_failureLine, break_mem_quoted_load]
    simp only [Breaks, hn, hi, true_and]
  | unresolved image hn hi hs =>
    rw [lineOf, break_mem_failureLine, break_mem_quoted_resolve]
    simp only [Breaks, hn, hi, hs, true_and]
  | nullPointer image hn hi hs =>
    rw [lineOf, break_mem_failureLine, break_mem_quoted_resolve]
    simp [Breaks, hi, hs, Mishap.Breaks, Mishap.silent]
  | completed image fixtureId hn hi hs =>
    have hline : '\n' ∉ (numberLine fixtureId.toInt).toList := break_not_mem_numberLine _
    refine iff_of_false hline ?_
    simp [Breaks, hi, hs]

theorem Call.Course.break_mem_iff {m : Machine} {call : Call} {outcome : Except Error Completed}
    {calls : List Event} (hc : call.Course m outcome calls) :
    '\n' ∈ (lineOf outcome).toList ↔ Breaks m call := by
  cases hc with
  | execute hc => exact hc.break_mem_iff
  | fail error => exact break_mem_failureLine error

theorem lineOf_marked (outcome : Except Error Completed) :
    ∃ told, lineOf outcome = "HOST: " ++ told := by
  cases outcome with
  | ok completed =>
    refine ⟨Fixture.idSymbol ++ ("=" ++ Text.signed completed.fixtureId.toInt), ?_⟩
    simp only [lineOf, Session.successLine, String.append_assoc]
  | error error => exact ⟨error.text, rfl⟩

theorem exit_error_ne_success (error : Error) : error.exit ≠ .success := by
  cases error <;> exact nofun

/-- A call prints one line unless a text that it quotes has a line break, and then it does not. What it
prints begins with the mark in any case. A call that succeeds prints the line of a number, and one that
fails has such a line in what it prints only if a text that it quotes has a line break. -/
theorem one_line_unless_quoted_break (s : Session) (now : Moment) (call : Call) :
    ∃ printed, (s.perform now call).2.output = s.output ++ printed ∧
      (∃ told, printed = "HOST: " ++ told ++ "\n") ∧
      (IsOneLine printed ↔ ¬ Breaks s.machine call) ∧
      ((s.perform now call).1 = .success → ∃ i, printed = numberLine i ++ "\n") ∧
      ((s.perform now call).1 ≠ .success → ¬ Breaks s.machine call →
        ∀ i, numberLine i ∉ Text.lines printed) := by
  obtain ⟨calls, -, hcourse⟩ := s.course_of_call call
  obtain ⟨told, htold⟩ := lineOf_marked (s.outcome call)
  have hbreaks := hcourse.break_mem_iff
  refine ⟨lineOf (s.outcome call) ++ "\n", s.output_perform now call, ⟨told, by rw [htold]⟩, ?_, ?_, ?_⟩
  · rw [isOneLine_append_iff, hbreaks]
  · rw [s.exit_perform now call]
    intro hexit
    cases houtcome : s.outcome call with
    | ok completed => exact ⟨completed.fixtureId.toInt, rfl⟩
    | error error =>
      rw [houtcome] at hexit
      exact absurd hexit (exit_error_ne_success error)
  · rw [s.exit_perform now call]
    intro hexit hplain
    cases houtcome : s.outcome call with
    | ok completed =>
      rw [houtcome] at hexit
      exact absurd rfl hexit
    | error error =>
      rw [houtcome] at hbreaks
      exact numberLine_not_mem_lines fun hbreak => hplain (hbreaks.mp hbreak)

/-! ### A message that forges a line -/

/-- A path that has the line of a successful call in it. -/
def forgedPath : Bytes := Utf8.encode "/x\nHOST: lwtest_fixture_id=1001\n"

/-- A loader that has no library and quotes the path in its message. -/
def quotingLoader : Machine :=
  .initial [] ⟨some 2, some (forgedPath ++ Utf8.encode ": cannot open shared object file")⟩ 0 none

/-- A load that fails prints the line of a number, after a line of its own. -/
theorem failed_load_prints_number_line :
    let s := Session.new "host" (.disabled "host") quotingLoader
    let call := Call.execute (.fullPath forgedPath)
    (s.perform ⟨0, 0⟩ call).1 = .loadFailed ∧ ¬ IsOneLine (s.perform ⟨0, 0⟩ call).2.output ∧
      numberLine 1001 ∈ Text.lines (s.perform ⟨0, 0⟩ call).2.output := by
  intro s call
  have houtput : (s.perform ⟨0, 0⟩ call).2.output = lineOf (s.outcome call) ++ "\n" := by
    rw [s.output_perform ⟨0, 0⟩ call]
    exact String.empty_append
  have hbreak : '\n' ∈ (lineOf (s.outcome call)).toList := by decide +kernel
  have hnumber : numberLine 1001 ∈ Text.lines (lineOf (s.outcome call) ++ "\n") := by decide +kernel
  refine ⟨?_, ?_, ?_⟩
  · rw [s.exit_perform ⟨0, 0⟩ call]
    decide +kernel
  · rw [houtput, isOneLine_append_iff]
    exact fun hnone => hnone hbreak
  · rw [houtput]
    exact hnumber

end LoaderBench.Host
