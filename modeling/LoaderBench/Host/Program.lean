import LoaderBench.Host.Session

/-!
# The two host programs

One program loads the path that is its first argument; the other loads the fixture library by its file
name and takes no arguments. Both log where the environment says. A log that cannot be opened is
reported, and the program goes on without one.
-/

namespace LoaderBench.Host

open LoaderBench.FileTree LoaderBench.Loader LoaderBench.Log LoaderBench.Platform LoaderBench.Time

/-! ### Opening the log -/

/-- A host ready to work, the files as they are now, and the place of its log. -/
structure Prepared where
  session : Session
  tree : Tree
  logPlace : Option Place

/-- Opens the log that the settings name. Appending starts from what the file holds already, so the
sink keeps only what is added. -/
def prepare (name : String) (config : Config) (machine : Machine) (tree : Tree)
    (directory : Place) : Prepared :=
  let silent := Session.new name (.disabled name) machine
  match config.logPath with
  | none => ⟨silent, tree, none⟩
  | some path =>
    match tree.openAppend directory path with
    | .ok (place, tree) =>
      ⟨Session.new name (.toSink (.new .unlimited) name config.runId) machine, tree, some place⟩
    | .error e =>
      ⟨silent.complain (name ++ ": cannot open log " ++ Utf8.lossy path ++ ": " ++ e.text), tree,
        none⟩

/-- The files once the records of a session are in its log. -/
def Prepared.treeAfter (prepared : Prepared) (session : Session) : Tree :=
  match prepared.logPlace with
  | none => prepared.tree
  | some place => prepared.tree.appendAt place session.emitter.written

/-! ### Programs -/

inductive Program where
  | byPath
  | byName
  deriving DecidableEq

def Program.name : Program → String
  | .byPath => Fixture.pathHostStem
  | .byName => Fixture.nameHostStem

/-- What a program finds when it starts. -/
structure Surroundings where
  process : ProcessId
  environment : Environment
  machine : Machine
  tree : Tree
  directory : Place
  now : Moment

/-- What is left when a program has ended. -/
structure Ended where
  exit : Exit
  output : String
  errors : String
  trace : List Event
  tree : Tree

def Program.run (program : Program) (arguments : List Bytes) (around : Surroundings) : Ended :=
  let config := Config.ofPairs around.process around.environment.pairs
  let prepared := prepare program.name config around.machine around.tree around.directory
  let (exit, session) :=
    match program with
    | .byPath => prepared.session.executeArguments around.now arguments
    | .byName => prepared.session.execute around.now .fixture
  ⟨exit, session.output, session.errors, session.machine.trace, prepared.treeAfter session⟩

end LoaderBench.Host
