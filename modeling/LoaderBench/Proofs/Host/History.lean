import LoaderBench.Host.Session
import LoaderBench.Proofs.Host.Course

/-!
# Histories of a host

A history is a list of calls on one host. Each call has an outcome, which comes from the loader or is
handed in, and an answer: the exit, the text printed, and the loader calls made. The lemmas say that
printing and recording keep apart: records touch neither output nor loader, and the answer of a call
follows from its outcome.
-/

namespace LoaderBench.Host

open LoaderBench.Loader LoaderBench.Log LoaderBench.Time

/-! ### Calls and answers -/

/-- A call on a host. -/
inductive Call where
  | execute (target : Target)
  | fail (error : Error)
  deriving DecidableEq

/-- What a call answers. -/
structure Answer where
  exit : Exit
  printed : String
  calls : List Event
  deriving DecidableEq

def exitOf : Except Error Completed → Exit
  | .ok _ => .success
  | .error error => error.exit

/-- The line that tells an outcome. -/
def lineOf : Except Error Completed → String
  | .ok completed => Session.successLine completed.fixtureId
  | .error error => Session.failureLine error

/-- The outcomes that a call can have, with the loader calls that lead to them. -/
inductive Call.Course (m : Machine) : Call → Except Error Completed → List Event → Prop where
  | execute {target : Target} {outcome : Except Error Completed} {calls : List Event}
      (hc : Host.Course target m outcome calls) : Call.Course m (.execute target) outcome calls
  | fail (error : Error) : Call.Course m (.fail error) (.error error) []

namespace Session

/-- Makes a call. -/
def perform (s : Session) (now : Moment) : Call → Exit × Session
  | .execute target => s.execute now target
  | .fail error => s.fail now error

/-- Makes calls one after another, each at its moment. -/
def performAll (s : Session) : List (Moment × Call) → Session
  | [] => s
  | (now, call) :: later => (s.perform now call).2.performAll later

/-- What a call comes to. -/
def outcome (s : Session) : Call → Except Error Completed
  | .execute target => (run target s.machine).1
  | .fail error => .error error

/-- The loader after a call. -/
def machineAfter (s : Session) : Call → Machine
  | .execute target => (run target s.machine).2
  | .fail _ => s.machine

/-- The answer of a call, told from what the call changes. -/
structure Answers (s : Session) (now : Moment) (call : Call) (answer : Answer) : Prop where
  exit : (s.perform now call).1 = answer.exit
  output : (s.perform now call).2.output = s.output ++ answer.printed
  trace : (s.perform now call).2.machine.trace = s.machine.trace ++ answer.calls

/-! ### What printing and recording keep -/

variable (s : Session) (now : Moment)

@[simp] theorem output_print (line : String) : (s.print line).output = s.output ++ (line ++ "\n") :=
  String.append_assoc

@[simp] theorem machine_print (line : String) : (s.print line).machine = s.machine := rfl

@[simp] theorem emitter_print (line : String) : (s.print line).emitter = s.emitter := rfl

@[simp] theorem output_complain (line : String) : (s.complain line).output = s.output := rfl

@[simp] theorem machine_complain (line : String) : (s.complain line).machine = s.machine := rfl

@[simp] theorem emitter_complain (line : String) : (s.complain line).emitter = s.emitter := rfl

@[simp] theorem output_write (entry : Entry) : (s.write entry).output = s.output := by
  simp only [write]
  split <;> rfl

@[simp] theorem machine_write (entry : Entry) : (s.write entry).machine = s.machine := by
  simp only [write]
  split <;> rfl

@[simp] theorem emitter_write (entry : Entry) :
    (s.write entry).emitter = (s.emitter.emit entry).2 := by
  simp only [write]
  split <;> rfl

section

variable (level : Level) (event : String) (complete : Entry → Entry)

@[simp] theorem output_record : (s.record now level event complete).output = s.output := by
  simp only [record, output_write]

@[simp] theorem machine_record : (s.record now level event complete).machine = s.machine := by
  simp only [record, machine_write]

@[simp] theorem emitter_record :
    (s.record now level event complete).emitter =
      ((s.emitter.entry now level event).2.emit
        (complete (s.emitter.entry now level event).1)).2 := by
  simp only [record, emitter_write]

end

/-! ### What a call answers -/

@[simp] theorem output_tellCompleted (completed : Completed) :
    (s.tellCompleted now completed).output =
      s.output ++ (successLine completed.fixtureId ++ "\n") := by
  simp only [tellCompleted]
  split <;> simp [recordCall, recordRelease]

@[simp] theorem machine_tellCompleted (completed : Completed) :
    (s.tellCompleted now completed).machine = s.machine := by
  simp only [tellCompleted]
  split <;> simp [recordCall, recordRelease]

@[simp] theorem output_tellFailed (error : Error) (target : Option Target) :
    (s.tellFailed now error target).output = s.output ++ (failureLine error ++ "\n") := by
  simp [tellFailed, recordFailure]

@[simp] theorem machine_tellFailed (error : Error) (target : Option Target) :
    (s.tellFailed now error target).machine = s.machine := by
  simp [tellFailed, recordFailure]

theorem execute_eq (target : Target) :
    s.execute now target =
      let started := { s.recordStart now target with machine := (run target s.machine).2 }
      match (run target s.machine).1 with
      | .ok completed =>
        (.success, (started.tellCompleted now completed).recordExit now .success)
      | .error error =>
        (error.exit, (started.tellFailed now error (some target)).recordExit now error.exit) := by
  have hm : (s.recordStart now target).machine = s.machine := machine_record ..
  cases hr : run target s.machine with
  | mk outcome machine =>
    have hstarted : run target (s.recordStart now target).machine = (outcome, machine) := by
      rw [hm, hr]
    cases outcome with
    | ok completed => simp only [execute, hstarted]
    | error error => simp only [execute, hstarted]

theorem exit_perform (call : Call) : (s.perform now call).1 = exitOf (s.outcome call) := by
  cases call with
  | execute target =>
    simp only [perform, execute_eq, outcome]
    split <;> simp_all [exitOf]
  | fail error => rfl

theorem output_perform (call : Call) :
    (s.perform now call).2.output = s.output ++ (lineOf (s.outcome call) ++ "\n") := by
  cases call with
  | execute target =>
    simp only [perform, execute_eq, outcome]
    split <;> simp_all [lineOf, recordExit, recordStart]
  | fail error => simp [perform, fail, outcome, lineOf, recordExit]

theorem machine_perform (call : Call) : (s.perform now call).2.machine = s.machineAfter call := by
  cases call with
  | execute target =>
    simp only [perform, execute_eq, machineAfter]
    split <;> simp [recordExit]
  | fail error => simp [perform, fail, machineAfter, recordExit]

/-- The outcome of a call and the loader calls it makes belong together. -/
theorem course_of_call (call : Call) :
    ∃ calls, (s.machineAfter call).trace = s.machine.trace ++ calls ∧
      call.Course s.machine (s.outcome call) calls := by
  cases call with
  | execute target =>
    obtain ⟨calls, htrace, hcourse⟩ := course_of_run target s.machine
    exact ⟨calls, htrace, .execute hcourse⟩
  | fail error => exact ⟨[], (List.append_nil _).symm, .fail error⟩

/-- The answer of a call follows from its outcome. -/
theorem answers_of_course (call : Call) :
    ∃ outcome calls, call.Course s.machine outcome calls ∧
      s.Answers now call ⟨exitOf outcome, lineOf outcome ++ "\n", calls⟩ := by
  obtain ⟨calls, htrace, hcourse⟩ := s.course_of_call call
  refine ⟨s.outcome call, calls, hcourse, s.exit_perform now call, s.output_perform now call, ?_⟩
  rw [machine_perform]
  exact htrace

/-! ### The loader over a history -/

theorem sameLoader_perform (call : Call) : (s.perform now call).2.machine.SameLoader s.machine := by
  rw [machine_perform]
  cases call with
  | execute target => exact sameLoader_run target s.machine
  | fail error => exact Machine.SameLoader.refl _

theorem sameLoader_performAll (calls : List (Moment × Call)) :
    (s.performAll calls).machine.SameLoader s.machine := by
  induction calls generalizing s with
  | nil => exact Machine.SameLoader.refl _
  | cons first later ih =>
    exact (ih (s.perform first.1 first.2).2).trans (s.sameLoader_perform first.1 first.2)

end Session
end LoaderBench.Host
