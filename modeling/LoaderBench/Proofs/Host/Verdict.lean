import LoaderBench.Proofs.Host.History
import LoaderBench.Proofs.Text.Decimal

/-!
# What a caller can tell

The text that a call prints is all that a caller of the program may see of it. `verdict` is what there
is to tell: the number, or what failed, with its code and its message if there is one. Two calls print
the same text exactly if their verdicts are the same, whatever the messages are: the kind is told by the
ninth character of the line, a code ends where its digits do, and a message goes on to the end.
-/

namespace LoaderBench.Loader

open LoaderBench.Text

/-- The characters that tell a message, if there is one. -/
def detailPart : Option String → List Char
  | none => []
  | some detail => ':' :: ' ' :: detail.toList

theorem detailPart_inj {detail detail' : Option String} (h : detailPart detail = detailPart detail') :
    detail = detail' := by
  cases detail with
  | none =>
    cases detail' with
    | none => rfl
    | some _ => cases h
  | some _ =>
    cases detail' with
    | none => cases h
    | some _ =>
      simp only [detailPart, List.cons.injEq, true_and] at h
      rw [String.toList_inj.mp h]

theorem head?_detailPart (detail : Option String) :
    ∀ c ∈ (detailPart detail).head?, c.isDigit = false := by
  intro c hc
  cases detail with
  | none => cases hc
  | some _ =>
    cases hc
    decide

theorem Failure.toList_text (failure : Failure) : failure.text.toList =
    (codeLabel ++ "=").toList ++ ((signed failure.code.toInt).toList ++ detailPart failure.detail) := by
  cases hdetail : failure.detail with
  | none => simp [Failure.text, detailPart, hdetail]
  | some detail => simp [Failure.text, detailPart, hdetail]

theorem Failure.text_inj {failure failure' : Failure} (h : failure.text = failure'.text) :
    failure.code = failure'.code ∧ failure.detail = failure'.detail := by
  have hlists := congrArg String.toList h
  rw [Failure.toList_text, Failure.toList_text] at hlists
  obtain ⟨hcode, hdetail⟩ := signed_append_inj (head?_detailPart _) (head?_detailPart _)
    (List.append_cancel_left hlists)
  exact ⟨Int32.toInt_inj.mp hcode, detailPart_inj hdetail⟩

end LoaderBench.Loader

namespace LoaderBench.Host

open LoaderBench.Loader LoaderBench.Log LoaderBench.Time

/-! ### Verdicts -/

/-- What there is to tell of an outcome. -/
inductive Verdict where
  | number (fixtureId : Int32)
  | usage
  | load (mode : String) (code : Int32) (detail : Option String)
  | resolve (code : Int32) (detail : Option String)
  deriving DecidableEq

def verdict : Except Error Completed → Verdict
  | .ok completed => .number completed.fixtureId
  | .error .usage => .usage
  | .error (.load mode failure) => .load mode failure.code failure.detail
  | .error (.resolve _ failure) => .resolve failure.code failure.detail

/-- An outcome as hosts come to it. What is loaded is a path or a name, and a failure is that of the
loader call which loads or looks up. Code, message and number are any. -/
inductive Usual : Except Error Completed → Prop where
  | number (completed : Completed) : Usual (.ok completed)
  | usage : Usual (.error .usage)
  | load (mode : String) (code : Int32) (detail : Option String)
      (hmode : mode = "fullpath" ∨ mode = "name") :
      Usual (.error (.load mode ⟨loadApi, code, detail⟩))
  | resolve (symbol : String) (code : Int32) (detail : Option String) :
      Usual (.error (.resolve symbol ⟨resolveApi, code, detail⟩))

theorem mode_cases (target : Target) : target.mode = "fullpath" ∨ target.mode = "name" := by
  cases target with
  | fullPath path => exact .inl rfl
  | name file => exact .inr rfl

theorem Course.usual {target : Target} {m : Machine} {outcome : Except Error Completed}
    {calls : List Event} (hc : Course target m outcome calls) : Usual outcome := by
  cases hc with
  | empty => exact .load _ _ _ (mode_cases target)
  | nul => exact .load _ _ _ (mode_cases target)
  | absent => exact .load _ _ _ (mode_cases target)
  | unresolved => exact .resolve _ _ _
  | nullPointer => exact .resolve _ _ _
  | completed => exact .number _

/-- A call in which a failure is handed in is usual if the failure is. -/
def Call.IsUsual : Call → Prop
  | .execute _ => True
  | .fail error => Usual (.error error)

theorem usual_outcome (s : Session) {call : Call} (h : call.IsUsual) : Usual (s.outcome call) := by
  cases call with
  | execute target =>
    obtain ⟨calls, -, hcourse⟩ := course_of_run target s.machine
    exact hcourse.usual
  | fail error => exact h

/-! ### Lines -/

/-- The ninth character of a line. -/
def Verdict.letter : Verdict → Char
  | .number _ => 't'
  | .usage => 'a'
  | .load _ _ _ => 'o'
  | .resolve _ _ => 's'

theorem letter_of_usual {outcome : Except Error Completed} (h : Usual outcome) :
    (lineOf outcome).toList[8]? = some (verdict outcome).letter := by
  cases h with
  | number completed => simp [lineOf, Session.successLine, Fixture.idSymbol, verdict, Verdict.letter]
  | usage => rfl
  | load mode code detail hmode =>
    simp [lineOf, Session.failureLine, Error.text, loadApi, verdict, Verdict.letter]
  | resolve symbol code detail =>
    simp [lineOf, Session.failureLine, Error.text, resolveApi, verdict, Verdict.letter]

theorem mode_inj {mode mode' : String} {xs ys : List Char}
    (hmode : mode = "fullpath" ∨ mode = "name") (hmode' : mode' = "fullpath" ∨ mode' = "name")
    (h : mode.toList ++ ')' :: xs = mode'.toList ++ ')' :: ys) : mode = mode' ∧ xs = ys := by
  rcases hmode with rfl | rfl
  · rcases hmode' with rfl | rfl
    · simpa using h
    · simp at h
  · rcases hmode' with rfl | rfl
    · simp at h
    · simpa using h

theorem successLine_inj {i j : Int32} (h : Session.successLine i = Session.successLine j) : i = j := by
  have hlists := congrArg String.toList h
  simp only [Session.successLine, String.toList_append] at hlists
  have hsigned := List.append_cancel_left hlists
  rw [← List.append_nil (Text.signed i.toInt).toList,
    ← List.append_nil (Text.signed j.toInt).toList] at hsigned
  have hnone : ∀ c ∈ ([] : List Char).head?, c.isDigit = false := nofun
  exact Int32.toInt_inj.mp (Text.signed_append_inj hnone hnone hsigned).1

theorem failureLine_inj {error error' : Error}
    (h : Session.failureLine error = Session.failureLine error') : error.text = error'.text := by
  have hlists := congrArg String.toList h
  simp only [Session.failureLine, String.toList_append] at hlists
  exact String.toList_inj.mp (List.append_cancel_left hlists)

theorem load_text_inj {mode mode' : String} {code code' : Int32} {detail detail' : Option String}
    (hmode : mode = "fullpath" ∨ mode = "name") (hmode' : mode' = "fullpath" ∨ mode' = "name")
    (h : (Error.load mode ⟨loadApi, code, detail⟩).text =
      (Error.load mode' ⟨loadApi, code', detail'⟩).text) :
    mode = mode' ∧ code = code' ∧ detail = detail' := by
  have hparts (mode : String) (failure : Failure) : (Error.load mode failure).text.toList =
      (failure.api ++ "(").toList ++
        (mode.toList ++ ')' :: (" failed ".toList ++ failure.text.toList)) := by
    simp [Error.text]
  have hlists := congrArg String.toList h
  rw [hparts, hparts] at hlists
  obtain ⟨hsame, hrest⟩ := mode_inj hmode hmode' (List.append_cancel_left hlists)
  exact ⟨hsame, Failure.text_inj (String.toList_inj.mp (List.append_cancel_left hrest))⟩

theorem resolve_text_inj {symbol symbol' : String} {code code' : Int32}
    {detail detail' : Option String}
    (h : (Error.resolve symbol ⟨resolveApi, code, detail⟩).text =
      (Error.resolve symbol' ⟨resolveApi, code', detail'⟩).text) :
    code = code' ∧ detail = detail' := by
  have hlists := congrArg String.toList h
  simp only [Error.text, String.toList_append] at hlists
  exact Failure.text_inj (String.toList_inj.mp (List.append_cancel_left hlists))

/-! ### Calls -/

/-- Usual outcomes with the same line have the same verdict. -/
theorem verdict_eq_of_lineOf {outcome outcome' : Except Error Completed} (h : Usual outcome)
    (h' : Usual outcome') (heq : lineOf outcome = lineOf outcome') :
    verdict outcome = verdict outcome' := by
  have hletter : (verdict outcome).letter = (verdict outcome').letter := by
    have hsame := letter_of_usual h
    rw [heq, letter_of_usual h'] at hsame
    exact (Option.some.inj hsame).symm
  -- Outcomes of two kinds differ in the letter already.
  cases h <;> cases h' <;> simp [verdict, Verdict.letter] at hletter
  case number.number completed completed' =>
    have hnumber : completed.fixtureId = completed'.fixtureId := successLine_inj heq
    simp only [verdict, hnumber]
  case usage.usage => rfl
  case load.load mode code detail hmode mode' code' detail' hmode' =>
    obtain ⟨hsame, hcode, hdetail⟩ := load_text_inj hmode hmode' (failureLine_inj heq)
    simp only [verdict, hsame, hcode, hdetail]
  case resolve.resolve symbol code detail symbol' code' detail' =>
    obtain ⟨hcode, hdetail⟩ := resolve_text_inj (failureLine_inj heq)
    simp only [verdict, hcode, hdetail]

theorem lineOf_eq_of_verdict {outcome outcome' : Except Error Completed} (h : Usual outcome)
    (h' : Usual outcome') (heq : verdict outcome = verdict outcome') :
    lineOf outcome = lineOf outcome' := by
  cases h <;> cases h' <;> simp_all [verdict, lineOf, Session.failureLine, Error.text]

/-- Two usual calls on any two hosts print the same text exactly if their verdicts are the same. -/
theorem printed_tells_verdict (s s' : Session) (now now' : Moment) {call call' : Call}
    (h : call.IsUsual) (h' : call'.IsUsual) :
    ∃ printed printed', (s.perform now call).2.output = s.output ++ printed ∧
      (s'.perform now' call').2.output = s'.output ++ printed' ∧
      (printed = printed' ↔ verdict (s.outcome call) = verdict (s'.outcome call')) := by
  have husual := usual_outcome s h
  have husual' := usual_outcome s' h'
  refine ⟨_, _, s.output_perform now call, s'.output_perform now' call', ?_⟩
  constructor
  · intro hprinted
    have hlists := congrArg String.toList hprinted
    rw [String.toList_append, String.toList_append] at hlists
    exact verdict_eq_of_lineOf husual husual' (String.toList_inj.mp (List.append_cancel_right hlists))
  · intro hverdict
    rw [lineOf_eq_of_verdict husual husual' hverdict]

/-- A message that imitates the line of a number prints another text than the number does. -/
theorem imitated_number_told_apart :
    let machine := Machine.initial [⟨[97], [(fixtureSymbol, some 1001)], .silent, 0, .silent⟩]
      .silent 0 none
    let s := Session.new "host" (.disabled "host") machine
    let forged := Call.fail (.load "name" ⟨loadApi, 2, some "\nHOST: lwtest_fixture_id=1001"⟩)
    let real := Call.execute (.name [97])
    forged.IsUsual ∧ real.IsUsual ∧
      ∃ printed printed', (s.perform ⟨0, 0⟩ forged).2.output = s.output ++ printed ∧
        (s.perform ⟨0, 0⟩ real).2.output = s.output ++ printed' ∧ printed ≠ printed' := by
  intro machine s forged real
  have hforged : forged.IsUsual := .load _ _ _ (.inr rfl)
  have hreal : real.IsUsual := trivial
  obtain ⟨printed, printed', houtput, houtput', hiff⟩ :=
    printed_tells_verdict s s ⟨0, 0⟩ ⟨0, 0⟩ hforged hreal
  have hverdicts : verdict (s.outcome forged) ≠ verdict (s.outcome real) := by decide +kernel
  exact ⟨hforged, hreal, printed, printed', houtput, houtput', fun h => hverdicts (hiff.mp h)⟩

end LoaderBench.Host
