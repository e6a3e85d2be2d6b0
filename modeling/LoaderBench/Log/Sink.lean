import LoaderBench.Platform.IoError
import LoaderBench.Text.Utf8

/-!
# Where log bytes go

A sink takes bytes in write calls. How a call is answered is up to the *medium*: it may take any
number of the bytes offered, or fail, depending on what was written before and how many calls there
have been. `writeAll` keeps offering what is left until all is taken or a call fails; a call that takes
nothing counts as a failure. A call that is interrupted is made again as it stands, so it counts as one
call with the one that is answered, and an interruption is no answer.
-/

namespace LoaderBench.Log

open LoaderBench.Platform

inductive Answer where
  | took (count : Nat)
  | failed (error : IoError) (final : error ≠ .os interrupted)
  deriving DecidableEq

/-- A medium answers write and flush calls, given the bytes written so far and the number of write
calls so far. -/
structure Medium where
  answer : Bytes → Nat → Bytes → Answer
  flush : Bytes → Nat → Option IoError

/-- A sink: its medium, what was written, and how many write calls there have been. -/
structure Sink where
  medium : Medium
  written : Bytes
  calls : Nat

/-- What a full medium answers. -/
inductive WhenFull where
  | fails (message : String)
  | takesNothing
  deriving DecidableEq

namespace Medium

/-- A medium with room for `capacity` bytes, if there is a limit. It takes as many bytes as fit. -/
def bounded (capacity : Option Nat) (whenFull : WhenFull) (flushError : Option String) : Medium where
  answer written _ offered :=
    let fitting :=
      match capacity with
      | none => offered.length
      | some n => min (n - written.length) offered.length
    if fitting = 0 then
      match whenFull with
      | .fails message => .failed (.other message) (IoError.other_ne_os _ _)
      | .takesNothing => .took 0
    else .took fitting
  flush _ _ := flushError.map .other

def unlimited : Medium := bounded none .takesNothing none

end Medium

namespace Sink

def new (medium : Medium) : Sink := ⟨medium, [], 0⟩

/-- One write call: how many of the bytes offered were taken. -/
def write (sink : Sink) (offered : Bytes) : Except IoError Nat × Sink :=
  match sink.medium.answer sink.written sink.calls offered with
  | .took count =>
    let count := min count offered.length
    (.ok count, { sink with written := sink.written ++ offered.take count, calls := sink.calls + 1 })
  | .failed error _ => (.error error, { sink with calls := sink.calls + 1 })

/-- Offers bytes until all are taken. The counter bounds the calls by the number of bytes. -/
def offer : Nat → Bytes → Sink → Except IoError Unit × Sink
  | _, [], sink => (.ok (), sink)
  | 0, _ :: _, sink => (.error .wroteNothing, sink)
  | n + 1, b :: bytes, sink =>
    match sink.write (b :: bytes) with
    | (.error error, sink) => (.error error, sink)
    | (.ok 0, sink) => (.error .wroteNothing, sink)
    | (.ok count, sink) => offer n ((b :: bytes).drop count) sink

/-- Writes all of the bytes, or fails. -/
def writeAll (bytes : Bytes) (sink : Sink) : Except IoError Unit × Sink :=
  offer bytes.length bytes sink

/-- Writes pieces one after another, up to the first that fails. -/
def writePieces : List Bytes → Sink → Except IoError Unit × Sink
  | [], sink => (.ok (), sink)
  | piece :: pieces, sink =>
    match sink.writeAll piece with
    | (.ok (), sink) => writePieces pieces sink
    | (.error error, sink) => (.error error, sink)

/-- Makes sure that what was written is kept. -/
def flush (sink : Sink) : Except IoError Unit :=
  match sink.medium.flush sink.written sink.calls with
  | none => .ok ()
  | some error => .error error

end Sink
end LoaderBench.Log
