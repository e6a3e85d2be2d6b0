import LoaderBench.Host.Config
import LoaderBench.Host.Outcome
import LoaderBench.FileTree.Tree
import LoaderBench.Log.Emitter

/-!
# Host programs at work

A session is a host with its log, its loader and what it has printed. `execute` runs a target and
`fail` reports a failure found beforehand; each prints one line, records what happened, and ends with
a record of the exit. Records that cannot be written are reported on the error output and otherwise
ignored.
-/

namespace LoaderBench.Host

open LoaderBench.Loader LoaderBench.Log LoaderBench.Time

structure Session where
  name : String
  emitter : Emitter
  machine : Machine
  output : String
  errors : String

namespace Session

def new (name : String) (emitter : Emitter) (machine : Machine) : Session :=
  ⟨name, emitter, machine, "", ""⟩

/-! ### Printing and recording -/

def print (s : Session) (line : String) : Session := { s with output := s.output ++ line ++ "\n" }

def complain (s : Session) (line : String) : Session :=
  { s with errors := s.errors ++ line ++ "\n" }

def write (s : Session) (entry : Entry) : Session :=
  let (result, emitter) := s.emitter.emit entry
  let s := { s with emitter := emitter }
  match result with
  | .ok () => s
  | .error e => s.complain (s.name ++ ": log write failed: " ++ e.text)

/-- Starts a record, completes it, and writes it. -/
def record (s : Session) (now : Moment) (level : Level) (event : String) (complete : Entry → Entry) :
    Session :=
  let (entry, emitter) := s.emitter.entry now level event
  { s with emitter := emitter }.write (complete entry)

/-! ### The records of a run -/

def recordStart (s : Session) (now : Moment) (target : Target) : Session :=
  s.record now .info "load_start" fun e =>
    { e with mode := some target.mode, target := some (Utf8.lossy target.bytes) }

/-- Records a failure. The target is told where there was one. -/
def recordFailure (s : Session) (now : Moment) (error : Error) (target : Option Target) : Session :=
  s.record now .error error.event fun e =>
    { e with
      detail := some error.text
      symbol := error.symbol?
      osCode := error.failure?.map Failure.code
      mode := target.map Target.mode
      target := target.map fun t => Utf8.lossy t.bytes }

def recordCall (s : Session) (now : Moment) (fixtureId : Int32) : Session :=
  s.record now .info "fixture_called" fun e =>
    { e with symbol := some Fixture.idSymbol, fixtureId := some fixtureId }

def recordRelease (s : Session) (now : Moment) (failure : Failure) : Session :=
  s.record now .warn "release_failed" fun e =>
    { e with osCode := some failure.code, detail := failure.detail }

def recordExit (s : Session) (now : Moment) (exit : Exit) : Session :=
  s.record now .info "host_exit" fun e =>
    { e with exitCode := some (Int32.ofNat exit.code.toNat) }

/-! ### Runs -/

def successLine (fixtureId : Int32) : String :=
  "HOST: " ++ Fixture.idSymbol ++ "=" ++ Text.signed fixtureId.toInt

def failureLine (error : Error) : String := "HOST: " ++ error.text

def releaseLine (failure : Failure) : String :=
  "HOST: " ++ failure.api ++ " failed " ++ failure.text

def tellCompleted (s : Session) (now : Moment) (run : Completed) : Session :=
  let s := (s.print (successLine run.fixtureId)).recordCall now run.fixtureId
  match run.releaseFailure with
  | none => s
  | some failure => (s.complain (releaseLine failure)).recordRelease now failure

def tellFailed (s : Session) (now : Moment) (error : Error) (target : Option Target) : Session :=
  (s.print (failureLine error)).recordFailure now error target

/-- Reports a failure that was found before anything was loaded. -/
def fail (s : Session) (now : Moment) (error : Error) : Exit × Session :=
  (error.exit, (s.tellFailed now error none).recordExit now error.exit)

def execute (s : Session) (now : Moment) (target : Target) : Exit × Session :=
  let s := s.recordStart now target
  let (outcome, machine) := run target s.machine
  let s := { s with machine := machine }
  match outcome with
  | .ok completed => (.success, (s.tellCompleted now completed).recordExit now .success)
  | .error error => (error.exit, (s.tellFailed now error (some target)).recordExit now error.exit)

/-- Runs the target that arguments name, or reports that they name none. -/
def executeArguments (s : Session) (now : Moment) (arguments : List Bytes) : Exit × Session :=
  match Target.ofArguments arguments with
  | .ok target => s.execute now target
  | .error error => s.fail now error

end Session
end LoaderBench.Host
