import LoaderBench.Proofs.Host.History
import LoaderBench.Proofs.Log.Writing

/-!
# The log of a history

On a medium that accepts everything, each call adds one block of records to the log, and the blocks
stand in the order of the calls. A block agrees with what the call printed and with the exit it gave:
the number told by the record is the number printed, the detail of a failure is the line printed, and
the exit recorded is the exit given. Records are numbered from block to block without a gap.
-/

namespace LoaderBench.Host

open LoaderBench.Loader LoaderBench.Log LoaderBench.Time

/-! ### Records of a block -/

section

variable (entry : Entry)

/-- A record with the mode and the text of a target, where there is one. -/
def withTarget (target : Option Target) : Entry :=
  { entry with
    mode := target.map Target.mode
    target := target.map fun t => Utf8.lossy t.bytes }

/-- A record of the number that the fixture returned. -/
def withFixture (fixtureId : Int32) : Entry :=
  { entry with symbol := some Fixture.idSymbol, fixtureId := some fixtureId }

/-- A record of a release that failed. -/
def withRelease (failure : Failure) : Entry :=
  { entry with osCode := some failure.code, detail := failure.detail }

/-- A record of a failure that was told in the words `told`. -/
def withFailure (error : Error) (told : String) : Entry :=
  { entry with
    detail := some told
    symbol := error.symbol?
    osCode := error.failure?.map Failure.code }

def withExit (exit : Exit) : Entry :=
  { entry with exitCode := some (Int32.ofNat exit.code.toNat) }

end

/-! ### Blocks -/

/-- The blocks of records that a call can leave, given its outcome, the exit it gave, and the text it
printed. `start` starts the records of the block by their numbers within it; what a record is not given
here stays absent. -/
inductive Block (start : Nat → Level → String → Entry) :
    Call → Except Error Completed → Exit → String → List Entry → Prop where
  | completed (target : Target) (fixtureId : Int32) (exit : Exit) :
    Block start (.execute target) (.ok ⟨fixtureId, none⟩) exit
      ("HOST: " ++ Fixture.idSymbol ++ "=" ++ Text.signed fixtureId.toInt ++ "\n")
      [withTarget (start 1 .info "load_start") (some target),
        withFixture (start 2 .info "fixture_called") fixtureId,
        withExit (start 3 .info "host_exit") exit]
  | releaseFailed (target : Target) (fixtureId : Int32) (failure : Failure) (exit : Exit) :
    Block start (.execute target) (.ok ⟨fixtureId, some failure⟩) exit
      ("HOST: " ++ Fixture.idSymbol ++ "=" ++ Text.signed fixtureId.toInt ++ "\n")
      [withTarget (start 1 .info "load_start") (some target),
        withFixture (start 2 .info "fixture_called") fixtureId,
        withRelease (start 3 .warn "release_failed") failure,
        withExit (start 4 .info "host_exit") exit]
  | failed (target : Target) (error : Error) (exit : Exit) (told : String) :
    Block start (.execute target) (.error error) exit ("HOST: " ++ told ++ "\n")
      [withTarget (start 1 .info "load_start") (some target),
        withTarget (withFailure (start 2 .error error.event) error told) (some target),
        withExit (start 3 .info "host_exit") exit]
  | refused (error : Error) (exit : Exit) (told : String) :
    Block start (.fail error) (.error error) exit ("HOST: " ++ told ++ "\n")
      [withFailure (start 1 .error error.event) error told,
        withExit (start 2 .info "host_exit") exit]

/-- The blocks of a history, of which the first starts after record `count`. Each call adds its text to
the output and its block to the log. -/
inductive Transcript (host runId : String) :
    Nat → Session → List (Moment × Call) → List (List Entry) → Prop where
  | nil (count : Nat) (s : Session) : Transcript host runId count s [] []
  | cons (count : Nat) (s : Session) (now : Moment) (call : Call) (printed : String)
      (block : List Entry) (later : List (Moment × Call)) (blocks : List (List Entry))
      (hprinted : (s.perform now call).2.output = s.output ++ printed)
      (hwritten : (s.perform now call).2.emitter.written =
        s.emitter.written ++ block.flatMap recordBytes)
      (hblock : Block (fun k => started host runId (count + k) now) call (s.outcome call)
        (s.perform now call).1 printed block)
      (hlater : Transcript host runId (count + block.length) (s.perform now call).2 later blocks) :
    Transcript host runId count s ((now, call) :: later) (block :: blocks)

/-! ### What a call records -/

variable {s : Session} {host runId : String} {count : Nat} {log : Bytes}

theorem logs_record (h : s.emitter.Logs host runId count log) (now : Moment) (level : Level)
    (event : String) (complete : Entry → Entry) :
    (s.record now level event complete).emitter.Logs host runId (count + 1)
      (log ++ recordBytes (complete (started host runId (count + 1) now level event))) := by
  obtain ⟨hentry, hlogs⟩ := h.entry now level event
  rw [Session.emitter_record, hentry]
  exact hlogs.emit _

theorem logs_recordStart (h : s.emitter.Logs host runId count log) (now : Moment) (target : Target) :
    (s.recordStart now target).emitter.Logs host runId (count + 1)
      (log ++ recordBytes
        (withTarget (started host runId (count + 1) now .info "load_start") (some target))) :=
  logs_record h now _ _ _

theorem logs_recordExit (h : s.emitter.Logs host runId count log) (now : Moment) (exit : Exit) :
    (s.recordExit now exit).emitter.Logs host runId (count + 1)
      (log ++ recordBytes
        (withExit (started host runId (count + 1) now .info "host_exit") exit)) :=
  logs_record h now _ _ _

theorem logs_tellFailed (h : s.emitter.Logs host runId count log) (now : Moment) (error : Error)
    (target : Option Target) :
    (s.tellFailed now error target).emitter.Logs host runId (count + 1)
      (log ++ recordBytes (withTarget
        (withFailure (started host runId (count + 1) now .error error.event) error error.text)
        target)) :=
  logs_record (s := s.print (Session.failureLine error)) h now .error error.event
    fun e => withTarget (withFailure e error error.text) target

/-- The records that tell a completed run: one more if the release failed. -/
def completedRecords (start : Nat → Level → String → Entry) (completed : Completed) : List Entry :=
  withFixture (start 1 .info "fixture_called") completed.fixtureId ::
    (completed.releaseFailure.map (withRelease (start 2 .warn "release_failed"))).toList

theorem logs_tellCompleted (h : s.emitter.Logs host runId count log) (now : Moment)
    (completed : Completed) :
    (s.tellCompleted now completed).emitter.Logs host runId
      (count + (completedRecords (fun k => started host runId (count + k) now) completed).length)
      (log ++ (completedRecords (fun k => started host runId (count + k) now) completed).flatMap
        recordBytes) := by
  obtain ⟨fixtureId, release⟩ := completed
  have hcall : ((s.print (Session.successLine fixtureId)).recordCall now fixtureId).emitter.Logs
      host runId (count + 1)
      (log ++ recordBytes
        (withFixture (started host runId (count + 1) now .info "fixture_called") fixtureId)) :=
    logs_record (s := s.print (Session.successLine fixtureId)) h now _ _ _
  cases release with
  | none => simpa [Session.tellCompleted, completedRecords] using hcall
  | some failure =>
    have hrelease := logs_record (s := ((s.print (Session.successLine fixtureId)).recordCall now
      fixtureId).complain (Session.releaseLine failure)) hcall now .warn "release_failed"
      fun e => withRelease e failure
    simpa [Session.tellCompleted, completedRecords, Session.recordRelease, withRelease] using
      hrelease

/-! ### What a history records -/

/-- After record `count` a call adds one block to the log, which agrees with the call's answer. -/
def AddsBlock (s : Session) (now : Moment) (call : Call) (host runId : String) (count : Nat)
    (log : Bytes) : Prop :=
  ∃ block, Block (fun k => started host runId (count + k) now) call (s.outcome call)
      (s.perform now call).1 (lineOf (s.outcome call) ++ "\n") block ∧
    (s.perform now call).2.emitter.Logs host runId (count + block.length)
      (log ++ block.flatMap recordBytes)

theorem addsBlock_of_completed (h : s.emitter.Logs host runId count log) (now : Moment)
    (target : Target) {completed : Completed} (ho : s.outcome (.execute target) = .ok completed) :
    AddsBlock s now (.execute target) host runId count log := by
  have hrun : (run target s.machine).1 = .ok completed := ho
  have hstart := logs_recordStart h now target
  have htold := logs_tellCompleted
    (s := { s.recordStart now target with machine := (run target s.machine).2 }) hstart now completed
  have hexit := logs_recordExit htold now .success
  unfold AddsBlock
  rw [ho]
  simp only [Session.perform, Session.execute_eq, hrun]
  obtain ⟨fixtureId, release⟩ := completed
  cases release with
  | none =>
    refine ⟨_, .completed target fixtureId .success, ?_⟩
    simpa [completedRecords, Nat.add_assoc] using hexit
  | some failure =>
    refine ⟨_, .releaseFailed target fixtureId failure .success, ?_⟩
    simpa [completedRecords, Nat.add_assoc] using hexit

theorem addsBlock_of_failed (h : s.emitter.Logs host runId count log) (now : Moment)
    (target : Target) {error : Error} (ho : s.outcome (.execute target) = .error error) :
    AddsBlock s now (.execute target) host runId count log := by
  have hrun : (run target s.machine).1 = .error error := ho
  have hstart := logs_recordStart h now target
  have htold := logs_tellFailed
    (s := { s.recordStart now target with machine := (run target s.machine).2 }) hstart now error
    (some target)
  have hexit := logs_recordExit htold now error.exit
  unfold AddsBlock
  rw [ho]
  simp only [Session.perform, Session.execute_eq, hrun]
  refine ⟨_, .failed target error error.exit error.text, ?_⟩
  simpa [Nat.add_assoc] using hexit

theorem addsBlock_of_refused (h : s.emitter.Logs host runId count log) (now : Moment)
    (error : Error) : AddsBlock s now (.fail error) host runId count log := by
  have hexit := logs_recordExit (logs_tellFailed h now error none) now error.exit
  -- A started record has no target, so that being given none leaves it as it is.
  have hnone (entry : Entry) (hm : entry.mode = none) (ht : entry.target = none) :
      withTarget entry none = entry := by
    cases entry
    cases hm
    cases ht
    rfl
  rw [hnone _ rfl rfl] at hexit
  refine ⟨_, .refused error error.exit error.text, ?_⟩
  simpa [Session.perform, Session.fail, Nat.add_assoc] using hexit

theorem addsBlock (h : s.emitter.Logs host runId count log) (now : Moment) (call : Call) :
    AddsBlock s now call host runId count log := by
  cases call with
  | execute target =>
    cases ho : s.outcome (.execute target) with
    | ok completed => exact addsBlock_of_completed h now target ho
    | error error => exact addsBlock_of_failed h now target ho
  | fail error => exact addsBlock_of_refused h now error

theorem transcript_of_logs (h : s.emitter.Logs host runId count log)
    (calls : List (Moment × Call)) :
    ∃ blocks, Transcript host runId count s calls blocks ∧
      (s.performAll calls).emitter.written = log ++ blocks.flatten.flatMap recordBytes := by
  induction calls generalizing s count log with
  | nil => exact ⟨[], .nil count s, by simp [Session.performAll, h.written]⟩
  | cons first later ih =>
    obtain ⟨now, call⟩ := first
    obtain ⟨block, hblock, hlogs⟩ := addsBlock h now call
    obtain ⟨blocks, hlater, hwritten⟩ := ih hlogs
    refine ⟨block :: blocks, .cons count s now call _ block later blocks
      (s.output_perform now call) ?_ hblock hlater, ?_⟩
    · rw [hlogs.written, h.written]
    · rw [Session.performAll, hwritten, List.flatten_cons, List.flatMap_append, List.append_assoc]

/-- The log of a host whose medium accepts everything agrees with its output and its exits. -/
theorem log_agrees_with_output (s : Session) (sink : Sink) (hsink : s.emitter.sink = some sink)
    (accepting : sink.medium.Accepting) (calls : List (Moment × Call)) :
    ∃ blocks : List (List Entry),
      Transcript s.emitter.host s.emitter.runId s.emitter.count s calls blocks ∧
      (s.performAll calls).emitter.written =
        s.emitter.written ++ blocks.flatten.flatMap recordBytes := by
  have hlogs : s.emitter.Logs s.emitter.host s.emitter.runId s.emitter.count s.emitter.written :=
    ⟨rfl, rfl, rfl, sink, hsink, accepting, by simp only [Emitter.written, hsink]⟩
  exact transcript_of_logs hlogs calls

/-- A host with an unlimited log reports a missing argument and then runs a library whose release
fails. -/
theorem log_agrees_after_failed_release :
    let image : Image := ⟨[97], [(fixtureSymbol, some 7)], .silent, 1, ⟨some 5, none⟩⟩
    let machine := Machine.initial [image] .silent 0 none
    let host := Session.new "host" (.toSink (.new .unlimited) "host" "run") machine
    let calls : List (Moment × Call) := [(⟨0, 0⟩, .fail .usage), (⟨1, 0⟩, .execute (.name [97]))]
    host.emitter.sink = some (.new .unlimited) ∧ Medium.unlimited.Accepting ∧
      ∃ blocks : List (List Entry), Transcript "host" "run" 0 host calls blocks ∧
        (host.performAll calls).emitter.written = blocks.flatten.flatMap recordBytes := by
  intro image machine host calls
  exact ⟨rfl, Medium.accepting_unlimited,
    log_agrees_with_output host (.new .unlimited) rfl Medium.accepting_unlimited calls⟩

end LoaderBench.Host
