import LoaderBench.Host.Program
import LoaderBench.Staging.Program

/-!
# The command line

The first argument names a program of the bench: `fullpath` and `name` are the two hosts, `harness` is
the staging program. The others are its arguments. It runs in an empty world: no file, no library and no
build program is there, and the clock stands at the epoch. Only the environment is the real one.
-/

namespace LoaderBench.Main

open LoaderBench.Platform LoaderBench.Time

/-- The variables that the programs look at. -/
def watched : List String :=
  [Host.logVariable, Host.runVariable, Staging.programVariable, Staging.targetVariable,
    Staging.threadsVariable]

def readEnvironment : IO Environment := do
  let pairs ← watched.filterMapM fun key => do
    return (← IO.getEnv key).map fun value => (Utf8.encode key, Utf8.encode value)
  return .ofPairs pairs

def process : ProcessId := ⟨"0", by decide⟩

def now : Moment := ⟨0, 0⟩

def noLibraries : Loader.Machine := .initial [] ⟨some Loader.noSuchFile, none⟩ 0 none

/-- What the user is told who names no program. -/
def usage : String := "usage: (fullpath | name | harness) [arguments]"

def tell (output errors : String) : IO Unit := do
  (← IO.getStdout).putStr output
  (← IO.getStderr).putStr errors

def runHost (program : Host.Program) (arguments : List Bytes) : IO UInt32 := do
  let ended := program.run arguments
    ⟨process, ← readEnvironment, noLibraries, .bare [], [], now⟩
  tell ended.output ended.errors
  return ended.exit.code.toUInt32

def runStaging (arguments : List Bytes) : IO UInt32 := do
  let world : Staging.World :=
    ⟨.bare [], [], ← readEnvironment, [], [], [], "", now⟩
  let (exit, world) := Staging.runProgram FileTree.here process arguments world
  tell "" world.errors
  return exit.code.toUInt32

/-- Runs the program that the first argument names. -/
def dispatch (arguments : List String) : IO UInt32 := do
  match arguments with
  | "fullpath" :: rest => runHost .byPath (rest.map Utf8.encode)
  | "name" :: rest => runHost .byName (rest.map Utf8.encode)
  | "harness" :: rest => runStaging (rest.map Utf8.encode)
  | _ =>
    tell "" (usage ++ "\n")
    return 2

end LoaderBench.Main

/-- The command line of the bench. -/
def main (arguments : List String) : IO UInt32 := LoaderBench.Main.dispatch arguments
