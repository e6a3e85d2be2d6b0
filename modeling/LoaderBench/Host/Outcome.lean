import LoaderBench.Fixture.Identity
import LoaderBench.Loader.Library

/-!
# One load, call and release

A run loads a target, looks up the function that tells the fixture's number, calls it, and releases
the library. Whatever happens after a successful load, the library is released once.
-/

namespace LoaderBench.Host

open LoaderBench.Loader

/-! ### Targets -/

/-- What is handed to the loader: a path used as given, or a file name that the platform looks for. -/
inductive Target where
  | fullPath (path : Bytes)
  | name (file : Bytes)
  deriving DecidableEq

namespace Target

/-- The kind of a target, as diagnostics name it. -/
def mode : Target → String
  | .fullPath _ => "fullpath"
  | .name _ => "name"

def bytes : Target → Bytes
  | .fullPath path => path
  | .name file => file

def fixture : Target := .name (Utf8.encode (Fixture.libraryFile Fixture.exporterStem))

end Target

/-! ### Failures -/

/-- Why a run stops before the fixture's number is known. -/
inductive Error where
  | usage
  | load (mode : String) (failure : Failure)
  | resolve (symbol : String) (failure : Failure)
  deriving DecidableEq

inductive Exit where
  | success
  | usage
  | loadFailed
  | resolveFailed
  deriving DecidableEq

def Exit.code : Exit → UInt8
  | .success => 0
  | .usage => 2
  | .loadFailed => 10
  | .resolveFailed => 11

namespace Error

def exit : Error → Exit
  | .usage => .usage
  | .load _ _ => .loadFailed
  | .resolve _ _ => .resolveFailed

def event : Error → String
  | .usage => "usage"
  | .load _ _ => "load_failed"
  | .resolve _ _ => "resolve_failed"

/-- The failed loader call, if there was one. -/
def failure? : Error → Option Failure
  | .usage => none
  | .load _ failure => some failure
  | .resolve _ failure => some failure

/-- The symbol that was looked up in vain. -/
def symbol? : Error → Option String
  | .resolve symbol _ => some symbol
  | _ => none

def text : Error → String
  | .usage => "usage: <fullpath-to-library>"
  | .load mode failure => failure.api ++ "(" ++ mode ++ ") failed " ++ failure.text
  | .resolve _ failure => failure.api ++ " failed " ++ failure.text

end Error

/-- The target that the arguments of a program name: the first of them, whatever it is. -/
def Target.ofArguments : List Bytes → Except Error Target
  | [] => .error .usage
  | path :: _ => .ok (.fullPath path)

/-! ### Runs -/

/-- A completed run. A release that failed does not make it a failure. -/
structure Completed where
  fixtureId : Int32
  releaseFailure : Option Failure
  deriving DecidableEq

def failureOf : Except Failure Unit → Option Failure
  | .ok () => none
  | .error failure => some failure

/-- Loads, looks up, calls and releases. -/
def run (target : Target) (m : Machine) : Except Error Completed × Machine :=
  match Library.load target.bytes m with
  | (.error failure, m) => (.error (.load target.mode failure), m)
  | (.ok library, m) =>
    match library.function (Utf8.encode Fixture.idSymbol) m with
    | (.error failure, m) => (.error (.resolve Fixture.idSymbol failure), library.drop m)
    | (.ok function, m) =>
      let (fixtureId, m) := function.call m
      let (released, m) := library.close m
      (.ok ⟨fixtureId, failureOf released⟩, m)

end LoaderBench.Host
