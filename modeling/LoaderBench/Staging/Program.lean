import LoaderBench.CommandLine.Request
import LoaderBench.Staging.Plan

/-!
# The staging program

The program stages the fixtures, and on request runs the tests of the workspace against them. Where it
builds and stages follows from the environment and the arguments.
-/

namespace LoaderBench.Staging

open LoaderBench.Artifact LoaderBench.CommandLine LoaderBench.FileTree LoaderBench.Platform

/-! ### Directories -/

/-- The directory for builds: what the environment names, or one below the workspace. -/
def targetOf (environment : Environment) (root : Path) : Path :=
  match environment.named? targetVariable with
  | some (b :: path) => b :: path
  | _ => Path.joinText root "target"

def testsRoot (target : Path) : Path := Path.joinText target "lwtest-tests"

/-- The directory where fixtures are staged if no other is named. -/
def defaultOut (target : Path) : Path :=
  Path.joinText (Path.joinText (testsRoot target) "fixtures") "bin"

def Options.of (environment : Environment) (root : Path) (process : ProcessId) (out : Option Path)
    (release : Bool) : Options :=
  let target := targetOf environment root
  ⟨root, target, out.getD (defaultOut target), release, "stage-" ++ process.text⟩

/-! ### Tests -/

def fixtureVariable : String := "LWTEST_FIXTURE_BIN_ROOT"

def testRootVariable : String := "LWTEST_TEST_ROOT"

def threadsVariable : String := "RUST_TEST_THREADS"

def keepVariable : String := "LWTEST_KEEP_TEST_ARTIFACTS"

/-- The command with a variable set to one, if that is wanted. -/
def switchedOn (wanted : Bool) (key : String) (command : Command) : Command :=
  if wanted then command.env key (Utf8.encode "1") else command

/-- The command that runs the tests. One test runs at a time, unless the environment has a wish. -/
def testCommand (options : Options) (environment : Environment) (keepArtifacts : Bool) : Command :=
  let command :=
    ((Command.new environment options.workspaceRoot "test").arg "--workspace").release
      options.release
  let command :=
    ((command.env targetVariable options.targetDir).env fixtureVariable options.outDir).env
      testRootVariable (testsRoot options.targetDir)
  switchedOn keepArtifacts keepVariable
    (switchedOn (environment.named? threadsVariable).isNone threadsVariable command)

/-! ### The program -/

def serve (root : Path) (process : ProcessId) (request : Request) (world : World) :
    Except Failure Unit × World :=
  match request with
  | .stage out release =>
    let options := Options.of world.environment root process out release
    match stage options world with
    | (.error e, world) => (.error e, world)
    | (.ok index, world) =>
      (.ok (), world.complain ("harness: staged " ++
        String.ofList (Text.digits index.artifacts.length) ++ " artifacts into " ++
        Utf8.lossy options.outDir))
  | .test release keepArtifacts =>
    let options := Options.of world.environment root process none release
    match stage options world with
    | (.error e, world) => (.error e, world)
    | (.ok _, world) => (testCommand options world.environment keepArtifacts).run world

inductive Exit where
  | success
  | failure
  | misuse
  deriving DecidableEq

def Exit.code : Exit → UInt8
  | .success => 0
  | .failure => 1
  | .misuse => 2

/-- Runs the program from start to end. Help and hints on misuse are left to the caller. -/
def runProgram (root : Path) (process : ProcessId) (arguments : List Bytes) (world : World) :
    Exit × World :=
  match Request.ofArguments arguments with
  | .error .help => (.success, world)
  | .error .misuse => (.misuse, world)
  | .ok request =>
    match serve root process request world with
    | (.ok (), world) => (.success, world)
    | (.error e, world) => (.failure, world.complain ("Error: " ++ e.spelled))

end LoaderBench.Staging
