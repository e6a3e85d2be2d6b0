import LoaderBench.FileTree.Tree
import LoaderBench.Platform.Process
import LoaderBench.Time.Stamp

/-!
# The world of a build

A build runs programs, which change files and end in one way or another. A world holds the files and
the programs, and what each run of a program will do is laid down in a *script*: the first run takes the
first behaviour, the next the second, and runs beyond the script do nothing. The world remembers the
runs and what was printed on the error output.
-/

namespace LoaderBench.Staging

open LoaderBench.FileTree LoaderBench.Platform LoaderBench.Time

inductive Ending where
  | exited (status : UInt8)
  | killed
  deriving DecidableEq

/-- What a run of a program does: it writes files, and ends. -/
structure Behaviour where
  writes : List (Path × Bytes)
  ending : Ending

def Behaviour.idle : Behaviour := ⟨[], .exited 0⟩

/-- A run of a program: its arguments, and the working directory and environment it was given. -/
structure Call where
  arguments : List String
  directory : Place
  environment : Environment

/-- The files, the programs, and a process at work among them. -/
structure World where
  tree : Tree
  directory : Place
  environment : Environment
  programs : List Bytes
  script : List Behaviour
  calls : List Call
  errors : String
  now : Moment

namespace World

def complain (world : World) (line : String) : World :=
  { world with errors := world.errors ++ line ++ "\n" }

/-- The tree after writes of a run. Directories that are missing are created, and a file that cannot
be written is left as it is. -/
def written (tree : Tree) (directory : Place) (writes : List (Path × Bytes)) : Tree :=
  writes.foldl (fun tree w => tree.plant directory w.1 w.2) tree

/-- The directory in which a run of a program would start. -/
def startingPlace (world : World) (directory : Path) : Except IoError Place := do
  let place ← world.tree.locate world.directory directory
  match world.tree.node? place with
  | some .directory => .ok place
  | some (.file _) => .error (.os notDirectory)
  | none => .error (.os notFound)

def run (world : World) (program : Bytes) (arguments : List String) (directory : Path)
    (environment : Environment) : Except IoError Ending × World :=
  match world.startingPlace directory with
  | .error e => (.error e, world)
  | .ok place =>
    if program ≠ [] ∧ world.programs.contains program then
      let behaviour := world.script.headD .idle
      (.ok behaviour.ending,
       { world with
          tree := written world.tree world.directory behaviour.writes
          script := world.script.tail
          calls := world.calls ++ [⟨arguments, place, environment⟩] })
    else (.error (.os notFound), world)

end World
end LoaderBench.Staging
