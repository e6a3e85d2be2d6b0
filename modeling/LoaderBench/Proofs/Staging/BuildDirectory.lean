import LoaderBench.Proofs.Staging.Settings
import LoaderBench.Proofs.Staging.Whole
import LoaderBench.Staging.Program

/-!
# Where builds go, and where they are looked for

The build program is started in the workspace root and told a directory to build in. A relative path
of it leads from the root there, while the process that stages looks for what was built from its own
working directory. So the two agree if the path is absolute, as it is where the environment names
none, or if the process works in the workspace root; a relative path that only goes down leads to two
directories otherwise.
-/

namespace LoaderBench.Staging

open LoaderBench.Artifact LoaderBench.CommandLine LoaderBench.FileTree LoaderBench.Platform
  LoaderBench.Text

variable {options : Options} {root : Place} {target : Path}

/-! ### Relative paths -/

/-- Names that do not go up lead to a place below the one they start from. -/
theorem foldl_go_descending {names : List Name} (h : above ∉ names) (place : Place) :
    names.foldl go place = place ++ names.filter (· != here) := by
  induction names generalizing place with
  | nil => exact (List.append_nil place).symm
  | cons name names ih =>
    have hname : name ≠ above := fun he => h (he ▸ List.mem_cons_self)
    have hrest := ih fun hmem => h (List.mem_cons_of_mem _ hmem)
    rw [List.foldl_cons, hrest]
    by_cases hhere : name = here
    · have hdrop : (name :: names).filter (· != here) = names.filter (· != here) := by simp [hhere]
      rw [go, if_pos hhere, hdrop]
    · have hkeep : (name :: names).filter (· != here) = name :: names.filter (· != here) := by
        simp [hhere]
      rw [go, if_neg hhere, if_neg hname, hkeep, List.append_assoc, List.singleton_append]

theorem placeFrom_absolute {path : Path} (h : Path.isAbsolute path = true) (a b : Place) :
    Path.placeFrom a path = Path.placeFrom b path := by
  rw [Path.placeFrom, Path.placeFrom, Tree.origin, Tree.origin, if_pos h, if_pos h]

/-- A relative path that does not go up leads from different places to different places. -/
theorem placeFrom_relative_inj {path : Path} (hrelative : Path.isAbsolute path = false)
    (hdown : above ∉ Path.steps path) {a b : Place}
    (h : Path.placeFrom a path = Path.placeFrom b path) : a = b := by
  have horigin (place : Place) : Tree.origin place path = place := by
    rw [Tree.origin, hrelative, if_neg Bool.false_ne_true]
  rw [Path.placeFrom, Path.placeFrom, horigin, horigin, foldl_go_descending hdown,
    foldl_go_descending hdown] at h
  exact List.append_cancel_right h

/-! ### Runs -/

/-- A run in the workspace root that is told where to build. -/
structure Call.Told (root : Place) (target : Path) (call : Call) : Prop where
  directory : call.directory = root
  target : call.environment.named? targetVariable = some target

/-- The place to which a path leads that a run is handed in a variable, taken from where it runs. -/
def Call.handedPlace? (call : Call) (key : String) : Option Place :=
  (call.environment.named? key).map (Path.placeFrom call.directory)

theorem Call.handedPlace?_eq {call : Call} {key : String} {path : Path}
    (h : call.environment.named? key = some path) :
    call.handedPlace? key = some (Path.placeFrom call.directory path) := by
  rw [Call.handedPlace?, h, Option.map_some]

/-- The directory in which a run builds. -/
def Call.buildPlace? (call : Call) : Option Place := call.handedPlace? targetVariable

theorem Call.Told.buildPlace? {call : Call} (h : call.Told root target) :
    call.buildPlace? = some (Path.placeFrom root target) := by
  rw [Call.buildPlace?, Call.handedPlace?_eq h.target, h.directory]

/-- A later world of the same process, which has made runs of one kind only. -/
structure Makes (kind : Call → Prop) (world later : World) : Prop where
  directory : later.directory = world.directory
  environment : later.environment = world.environment
  calls : ∃ calls, later.calls = world.calls ++ calls ∧ ∀ call ∈ calls, kind call

variable {kind : Call → Prop} {world later : World}

theorem Makes.refl (kind : Call → Prop) (world : World) : Makes kind world world :=
  ⟨rfl, rfl, [], (List.append_nil _).symm, fun _ h => absurd h List.not_mem_nil⟩

theorem Makes.trans {last : World} (h : Makes kind world later) (h' : Makes kind later last) :
    Makes kind world last := by
  obtain ⟨first, hfirst, hkind⟩ := h.calls
  obtain ⟨second, hsecond, hkind'⟩ := h'.calls
  refine ⟨h'.directory.trans h.directory, h'.environment.trans h.environment, first ++ second, ?_,
    fun call hcall => ?_⟩
  · rw [hsecond, hfirst, List.append_assoc]
  · exact (List.mem_append.mp hcall).elim (hkind call) (hkind' call)

/-- Runs alone are counted: the files may be others, and more may have been printed. -/
theorem Makes.of_calls (hdirectory : later.directory = world.directory)
    (henvironment : later.environment = world.environment) (hcalls : later.calls = world.calls) :
    Makes kind world later :=
  ⟨hdirectory, henvironment, [], by rw [hcalls, List.append_nil],
    fun _ h => absurd h List.not_mem_nil⟩

theorem Command.makes {command : Command} (h : kind (command.call world)) :
    Makes kind world (command.run world).2 := by
  cases hrefusal : command.refusal? world with
  | some e =>
    rw [Command.run_refused hrefusal]
    exact .of_calls rfl rfl rfl
  | none =>
    rw [Command.run_started hrefusal]
    refine ⟨rfl, rfl, [command.call world], rfl, fun call hcall => ?_⟩
    rwa [List.mem_singleton.mp hcall]

/-! ### Commands that are told where to build -/

theorem Command.told {command : Command} (hdirectory : command.directory = options.workspaceRoot)
    (htarget : command.env? targetVariable = some options.targetDir) :
    (command.call world).Told (Path.placeFrom world.directory options.workspaceRoot)
      options.targetDir := by
  refine ⟨congrArg (Path.placeFrom world.directory) hdirectory, ?_⟩
  have hnamed := command.named?_environment world.environment targetVariable
  rwa [htarget, Option.some_or] at hnamed

theorem told_buildCommand (options : Options) (world : World) (arguments : List String)
    (variant : Option Int64) :
    ((buildCommand options world arguments variant).call world).Told
      (Path.placeFrom world.directory options.workspaceRoot) options.targetDir := by
  have hvariant : targetVariable ≠ variantVariable := by decide
  refine Command.told ?_ ?_
  · cases variant <;> simp [buildCommand, Options.command, Command.new]
  · cases variant <;> simp [buildCommand, Options.command, Command.env?_env_other, hvariant]

theorem env?_switchedOn (wanted : Bool) {key other : String} (command : Command) (h : other ≠ key) :
    (switchedOn wanted key command).env? other = command.env? other := by
  cases wanted with
  | false => rfl
  | true => exact Command.env?_env_other command _ h

theorem directory_switchedOn (wanted : Bool) (key : String) (command : Command) :
    (switchedOn wanted key command).directory = command.directory := by
  cases wanted <;> rfl

theorem told_testCommand (options : Options) (world : World) (keepArtifacts : Bool) :
    ((testCommand options world.environment keepArtifacts).call world).Told
      (Path.placeFrom world.directory options.workspaceRoot) options.targetDir := by
  have hkeep : targetVariable ≠ keepVariable := by decide
  have hthreads : targetVariable ≠ threadsVariable := by decide
  have hroot : targetVariable ≠ testRootVariable := by decide
  have hfixture : targetVariable ≠ fixtureVariable := by decide
  refine Command.told ?_ ?_
  · simp [testCommand, directory_switchedOn, Command.new]
  · simp [testCommand, env?_switchedOn, Command.env?_env_other, hkeep, hthreads, hroot, hfixture]

/-! ### The runs of a staging -/

theorem copyInto_makes (world : World) (source into : Path) (name : String) :
    Makes kind world (copyInto world source into name).2 := by
  obtain ⟨tree, hcopied, -⟩ := copyInto_world world source into name
  rw [hcopied]
  exact .of_calls rfl rfl rfl

theorem Step.makes (options : Options) (step : Step) (p : Progress) :
    Makes (Call.Told (Path.placeFrom p.world.directory options.workspaceRoot) options.targetDir)
      p.world (step.take options p).2.world := by
  cases step with
  | build arguments variant => exact Command.makes (told_buildCommand options p.world arguments variant)
  | keep built staged kind variant =>
    rw [world_take_keep]
    exact copyInto_makes _ _ _ _

theorem takeAll_makes (options : Options) (steps : List Step) (p : Progress) :
    Makes (Call.Told (Path.placeFrom p.world.directory options.workspaceRoot) options.targetDir)
      p.world (takeAll options steps p).2.world := by
  induction steps generalizing p with
  | nil => exact .refl _ _
  | cons step steps ih =>
    have hstep := step.makes options p
    unfold takeAll
    split
    · rename_i htake
      rw [htake] at hstep
      exact hstep
    · rename_i mid htake
      rw [htake] at hstep
      have hrest := ih mid
      rw [hstep.directory] at hrest
      exact hstep.trans hrest

theorem stage_makes (options : Options) (world : World) :
    Makes (Call.Told (Path.placeFrom world.directory options.workspaceRoot) options.targetDir)
      world (stage options world).2 := by
  unfold stage
  split
  · exact .of_calls rfl rfl rfl
  · rename_i tree hmake
    have hsteps := takeAll_makes options plan
      ⟨{ world with tree := tree }, .new world.now options.runId options.profile⟩
    have hstart : Makes (Call.Told (Path.placeFrom world.directory options.workspaceRoot)
        options.targetDir) world { world with tree := tree } := .of_calls rfl rfl rfl
    dsimp only
    split
    · rename_i htake
      rw [htake] at hsteps
      exact hstart.trans hsteps
    · rename_i last index htake
      rw [htake] at hsteps
      split
      · exact hstart.trans hsteps
      · exact (hstart.trans hsteps).trans (.of_calls rfl rfl rfl)

/-! ### The program -/

/-- The options under which a request is served. -/
def optionsOf (root : Path) (process : ProcessId) (environment : Environment) : Request → Options
  | .stage out release => Options.of environment root process out release
  | .test release _ => Options.of environment root process none release

theorem serve_makes (root : Path) (process : ProcessId) (request : Request) (world : World) :
    Makes (Call.Told (Path.placeFrom world.directory root) (targetOf world.environment root)) world
      (serve root process request world).2 := by
  cases request with
  | stage out release =>
    have hstage := stage_makes (Options.of world.environment root process out release) world
    unfold serve
    dsimp only
    split
    · rename_i hstaged
      rw [hstaged] at hstage
      exact hstage
    · rename_i hstaged
      rw [hstaged] at hstage
      exact hstage.trans (.of_calls rfl rfl rfl)
  | test release keepArtifacts =>
    have hstage := stage_makes (Options.of world.environment root process none release) world
    unfold serve
    dsimp only
    split
    · rename_i hstaged
      rw [hstaged] at hstage
      exact hstage
    · rename_i staged hstaged
      rw [hstaged] at hstage
      have htold := told_testCommand (Options.of world.environment root process none release) staged
        keepArtifacts
      rw [hstage.directory] at htold
      exact hstage.trans (Command.makes htold)

/-! ### Where builds are looked for -/

theorem Options.profilePlace_eq (options : Options) (directory : Place) :
    options.profilePlace directory =
      Path.placeFrom directory options.targetDir ++ [Utf8.encode options.profile] := by
  have hplain : PlainName (Utf8.encode options.profile) := by
    unfold Options.profile
    cases options.release <;> decide
  exact Path.placeFrom_join hplain directory options.targetDir

/-- Whether a run leaves its results in the directory of the profile where staging looks for them. -/
def Call.BuildsFor (options : Options) (directory : Place) (call : Call) : Prop :=
  call.buildPlace?.map (· ++ [Utf8.encode options.profile]) = some (options.profilePlace directory)

instance (options : Options) (directory : Place) (call : Call) :
    Decidable (call.BuildsFor options directory) :=
  inferInstanceAs (Decidable (_ = _))

theorem Call.Told.buildsFor_iff {call : Call} {directory : Place}
    (h : call.Told root options.targetDir) :
    call.BuildsFor options directory ↔
      Path.placeFrom root options.targetDir = Path.placeFrom directory options.targetDir := by
  rw [Call.BuildsFor, h.buildPlace?, Options.profilePlace_eq, Option.map_some]
  exact ⟨fun hsame => List.append_cancel_right (Option.some.inj hsame), fun hsame => by rw [hsame]⟩

/-- Whether the environment names a relative path to build in. -/
def NamesRelative (environment : Environment) : Prop :=
  ∃ path, environment.named? targetVariable = some path ∧ path ≠ [] ∧ Path.isAbsolute path = false

theorem isAbsolute_targetOf {environment : Environment} {path : Path}
    (hroot : Path.isAbsolute path = true) :
    Path.isAbsolute (targetOf environment path) = true ↔ ¬ NamesRelative environment := by
  have hplain : PlainName (Utf8.encode "target") := by decide
  have hdefault : Path.isAbsolute (Path.joinText path "target") = true :=
    (Path.isAbsolute_join hplain path).trans hroot
  unfold targetOf
  split
  · rename_i b rest hnamed
    constructor
    · rintro habsolute ⟨named, hsome, -, hrelative⟩
      rw [hnamed] at hsome
      rw [← Option.some.inj hsome, habsolute] at hrelative
      cases hrelative
    · intro hno
      refine Bool.of_not_eq_false fun hrelative => hno ⟨b :: rest, hnamed, ?_, hrelative⟩
      exact List.cons_ne_nil _ _
  · rename_i hnone
    refine iff_of_true hdefault ?_
    rintro ⟨named, hsome, hne, -⟩
    obtain ⟨b, rest, rfl⟩ := List.exists_cons_of_ne_nil hne
    exact hnone b rest hsome

/-- Whether the build program, in the workspace root, takes its target directory from where the process
itself does. -/
def SharesTarget (root : Path) (world : World) : Prop :=
  ¬ NamesRelative world.environment ∨ world.directory = Path.placeFrom world.directory root

/-- A shared target directory is the same one in the workspace root, and under a relative path that does
not go up only a shared one is. -/
theorem placeFrom_targetOf (root : Path) (world : World) (hroot : Path.isAbsolute root = true) :
    let target := targetOf world.environment root
    let same := Path.placeFrom (Path.placeFrom world.directory root) target =
      Path.placeFrom world.directory target
    (SharesTarget root world → same) ∧
      (above ∉ Path.steps target → same → SharesTarget root world) := by
  intro target same
  rw [SharesTarget, ← isAbsolute_targetOf hroot]
  refine ⟨fun hor => ?_, fun hdown hsame => ?_⟩
  · rcases hor with habsolute | hdirectory
    · exact placeFrom_absolute habsolute _ _
    · show Path.placeFrom (Path.placeFrom world.directory root) target = _
      rw [← hdirectory]
  · cases habsolute : Path.isAbsolute (targetOf world.environment root) with
    | true => exact .inl rfl
    | false => exact .inr (placeFrom_relative_inj habsolute hdown hsame).symm

/-- Every run of a request builds where staging looks for its results, if the environment names no
relative path or the process works in the workspace root, and under a relative path that does not go
up only then. -/
theorem serve_builds_where_looked (root : Path) (process : ProcessId) (request : Request)
    (world : World) (hroot : Path.isAbsolute root = true) :
    let options := optionsOf root process world.environment request
    ∃ calls, (serve root process request world).2.calls = world.calls ++ calls ∧
      ∀ call ∈ calls,
        (SharesTarget root world → call.BuildsFor options world.directory) ∧
          (above ∉ Path.steps options.targetDir → call.BuildsFor options world.directory →
            SharesTarget root world) := by
  intro options
  have htarget : options.targetDir = targetOf world.environment root := by
    cases request <;> rfl
  obtain ⟨calls, hcalls, htold⟩ := (serve_makes root process request world).calls
  refine ⟨calls, hcalls, fun call hcall => ?_⟩
  have hcall := htold call hcall
  rw [← htarget] at hcall
  rw [hcall.buildsFor_iff, htarget]
  exact placeFrom_targetOf root world hroot

/-! ### A process beside its workspace -/

def workspaceRoot : Path := Utf8.encode "/ws"

/-- A process that works in `/work`, where the results of some builds lie, and not in `/ws`. -/
def besideWorld (environment : Environment) : World :=
  { sampleWorld [] with
    tree := World.written ((Tree.bare [Utf8.encode "work"]).set [Utf8.encode "ws"] .directory)
      [Utf8.encode "work"] (sampleBuilds.flatMap Behaviour.writes)
    environment := environment }

def besideProcess : ProcessId := ⟨"1", by decide⟩

def stageOut : Request := .stage (some (Utf8.encode "out")) false

theorem tests_build_where_looked :
    let world := besideWorld .empty
    let options := optionsOf workspaceRoot besideProcess world.environment (.test false true)
    Path.isAbsolute workspaceRoot = true ∧
      ∃ calls, (serve workspaceRoot besideProcess (.test false true) world).2.calls =
          world.calls ++ calls ∧
        ∀ call ∈ calls,
          (SharesTarget workspaceRoot world → call.BuildsFor options world.directory) ∧
            (above ∉ Path.steps options.targetDir → call.BuildsFor options world.directory →
              SharesTarget workspaceRoot world) :=
  ⟨by decide, serve_builds_where_looked workspaceRoot besideProcess (.test false true)
    (besideWorld .empty) (by decide)⟩

/-- Under a relative path the four builds go to `/ws/target`, and what an earlier build has left in
`/work/target` is staged in place of their results. -/
theorem relative_target_builds_elsewhere :
    let world := besideWorld (.ofPairs [(Utf8.encode targetVariable, Utf8.encode "target")])
    let options := optionsOf workspaceRoot besideProcess world.environment stageOut
    let served := serve workspaceRoot besideProcess stageOut world
    served.1.isOk = true ∧ served.2.calls.length = 4 ∧
      (∀ call ∈ served.2.calls,
        call.buildPlace? = some [Utf8.encode "ws", Utf8.encode "target"] ∧
          ¬ call.BuildsFor options world.directory) ∧
      served.2.tree.file? (options.stagedAt world.directory "liblwtest_b.so") =
        world.tree.file? (Utf8.encode <$> ["work", "target", "debug", "liblwtest_b.so"]) := by
  decide +kernel

end LoaderBench.Staging
