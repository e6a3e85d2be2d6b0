import LoaderBench.Fixture.Identity
import LoaderBench.Staging.Command
import LoaderBench.Staging.Storage

/-!
# Staging

Staging builds the fixtures and lays them out in one directory, with an index of what lies there. What
has to be done is a list of *steps*: builds, and copies that are entered into the index. The steps are
taken in order, and the first that fails ends the staging.
-/

namespace LoaderBench.Staging

open LoaderBench.Artifact LoaderBench.FileTree LoaderBench.Fixture

/-! ### What to do -/

/-- The variants that are staged. -/
def stagedVariants : List Int64 := [1, 2]

inductive Step where
  | build (arguments : List String) (variant : Option Int64)
  | keep (built staged : String) (kind : Kind) (variant : Option Int64)
  deriving DecidableEq

/-- Keeps a file under its own name. -/
def Step.keepPlain (file : String) (kind : Kind) (variant : Option Int64) : Step :=
  .keep file file kind variant

/-- What is done for one of several variants. The first of them is also staged under the plain name. -/
def variantSteps (variants : List Int64) (variant : Int64) : List Step :=
  let library := libraryFile exporterStem
  [.build ["-p", "lwtest-a"] (some variant),
   .keep library (libraryFile (variantStem variant)) .library (some variant)] ++
    if variants.head? = some variant then [.keepPlain library .library (some variant)] else []

/-- What is done to stage some variants. -/
def planFor (variants : List Int64) : List Step :=
  [.build ["-p", "lwtest-b"] none, .build ["-p", "lwtest-host", "--bins"] none] ++
    variants.flatMap (variantSteps variants) ++
    [.keepPlain (libraryFile importedStem) .library none,
     .keepPlain (executableFile pathHostStem) .host none,
     .keepPlain (executableFile nameHostStem) .host none]

def plan : List Step := planFor stagedVariants

/-! ### Where to do it -/

def targetVariable : String := "CARGO_TARGET_DIR"

def variantVariable : String := "LWTEST_VARIANT"

structure Options where
  workspaceRoot : Path
  targetDir : Path
  outDir : Path
  release : Bool
  runId : String
  deriving DecidableEq

namespace Options

def profile (options : Options) : String := if options.release then "release" else "debug"

/-- The directory where builds of the profile leave their results. -/
def profileDir (options : Options) : Path := Path.joinText options.targetDir options.profile

/-- A command of the build program with the options' profile and target directory. -/
def command (options : Options) (world : World) (subcommand : String) : Command :=
  ((Command.new world.environment options.workspaceRoot subcommand).release options.release).env
    targetVariable options.targetDir

end Options

/-! ### Doing it -/

/-- A staging under way. -/
structure Progress where
  world : World
  index : Index

/-- Copies a file into a directory under a name. The path of the copy is the result. -/
def copyInto (world : World) (source into : Path) (name : String) : Except Failure Path × World :=
  if world.tree.isFile world.directory source then
    let target := Path.joinText into name
    match world.tree.copy world.directory source target with
    | .error e =>
      (.error (.io ("failed to copy " ++ Utf8.lossy source ++ " -> " ++ Utf8.lossy target) e), world)
    | .ok tree => (.ok target, { world with tree := tree })
  else (.error (.missingArtifact source), world)

def buildCommand (options : Options) (world : World) (arguments : List String)
    (variant : Option Int64) : Command :=
  let command := (options.command world "build").args arguments
  match variant with
  | none => command
  | some v => command.env variantVariable (Utf8.encode (Text.signed v.toInt))

def Step.take (options : Options) (step : Step) (progress : Progress) :
    Except Failure Unit × Progress :=
  match step with
  | .build arguments variant =>
    let (result, world) := (buildCommand options progress.world arguments variant).run progress.world
    (result, { progress with world := world })
  | .keep built staged kind variant =>
    let source := Path.joinText options.profileDir built
    match copyInto progress.world source options.outDir staged with
    | (.error e, world) => (.error e, { progress with world := world })
    | (.ok path, world) =>
      match addFile world.tree world.directory path kind variant progress.index with
      | (.error e, index) => (.error e, ⟨world, index⟩)
      | (.ok _, index) => (.ok (), ⟨world, index⟩)

/-- Takes steps in order, up to the first that fails. -/
def takeAll (options : Options) : List Step → Progress → Except Failure Unit × Progress
  | [], progress => (.ok (), progress)
  | step :: steps, progress =>
    match step.take options progress with
    | (.error e, progress) => (.error e, progress)
    | (.ok (), progress) => takeAll options steps progress

/-- Stages everything. The index that is the result is also in the directory. -/
def stage (options : Options) (world : World) : Except Failure Index × World :=
  match world.tree.makeDirectories world.directory options.outDir with
  | (.error e, tree) => (.error (failing "create" options.outDir e), { world with tree := tree })
  | (.ok (), tree) =>
    let start : Progress :=
      ⟨{ world with tree := tree }, .new world.now options.runId options.profile⟩
    match takeAll options plan start with
    | (.error e, progress) => (.error e, progress.world)
    | (.ok (), ⟨world, index⟩) =>
      match writeIndex world.tree world.directory options.outDir index with
      | .error e => (.error e, world)
      | .ok tree => (.ok index, { world with tree := tree })

end LoaderBench.Staging
