import LoaderBench.Log.Entry
import LoaderBench.Log.Sink

/-!
# Emitters

An emitter starts records for one host and run, and writes them to its sink. It numbers the records it
starts, whether they are written or not. The line of a record and its line break are two pieces, each
written with calls of its own. An emitter without a sink drops what it is given.
-/

namespace LoaderBench.Log

open LoaderBench.Text LoaderBench.Time LoaderBench.Platform

structure Emitter where
  sink : Option Sink
  count : Nat
  host : String
  runId : String

/-- The name of a record: host, run, and the record's number with at least three digits. -/
def traceId (host runId : String) (number : Nat) : String :=
  host ++ "::" ++ runId ++ "::" ++ padded 3 number

/-- The pieces in which a record is written. -/
def pieces (e : Entry) : List Bytes := [Utf8.encode e.line, [10]]

namespace Emitter

def toSink (sink : Sink) (host runId : String) : Emitter := ⟨some sink, 0, host, runId⟩

/-- An emitter that drops every record. -/
def disabled (host : String) : Emitter := ⟨none, 0, host, ""⟩

def isEnabled (emitter : Emitter) : Bool := emitter.sink.isSome

def entry (emitter : Emitter) (now : Moment) (level : Level) (event : String) : Entry × Emitter :=
  let number := emitter.count + 1
  ({ Entry.new now (traceId emitter.host emitter.runId number) level event with
      host := some emitter.host },
   { emitter with count := number })

/-- Starts a number of records and keeps the last. -/
def entries (emitter : Emitter) (now : Moment) (level : Level) (event : String) :
    Nat → Option Entry × Emitter
  | 0 => (none, emitter)
  | n + 1 =>
    let (_, before) := emitter.entries now level event n
    let (entry, after) := before.entry now level event
    (some entry, after)

def emit (emitter : Emitter) (e : Entry) : Except IoError Unit × Emitter :=
  match emitter.sink with
  | none => (.ok (), emitter)
  | some sink =>
    match sink.writePieces (pieces e) with
    | (.error error, sink) => (.error error, { emitter with sink := some sink })
    | (.ok (), sink) => (sink.flush, { emitter with sink := some sink })

def written (emitter : Emitter) : Bytes :=
  match emitter.sink with
  | none => []
  | some sink => sink.written

end Emitter
end LoaderBench.Log
