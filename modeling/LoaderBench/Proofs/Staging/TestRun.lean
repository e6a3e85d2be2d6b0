import LoaderBench.Proofs.Platform.Environment
import LoaderBench.Proofs.Staging.BuildDirectory
import LoaderBench.Proofs.Staging.FailStop

/-!
# The tests run on what was staged

A request for the tests makes four builds and then runs the tests. The runs stop at the first that
fails, and at a step of staging that fails between them, so that the tests run exactly if the staging
has come to its end, and the program succeeds exactly if all five runs do. Nothing that happens during
a staging can keep the tests from being started: directories stay, and what is handed over to the tests
has no NUL byte if what was handed over to the first build had none.

Paths are handed over as the process has them. Where they lead from the directory of a run is the
subject of two other modules: one on the directory for builds, which every run is told, and one on the
two directories of which the tests are told.
-/

namespace LoaderBench.Staging

open LoaderBench.Artifact LoaderBench.CommandLine LoaderBench.FileTree LoaderBench.Platform
  LoaderBench.Text

variable {options : Options} {step : Step} {steps : List Step} {p q : Progress}
variable {world later : World} {keepArtifacts : Bool}

/-! ### What the tests are given -/

/-- The variables that the tests are given. -/
def testVariables : List String :=
  [targetVariable, fixtureVariable, testRootVariable, threadsVariable, keepVariable]

def Options.testSettings (options : Options) (oneThread keepArtifacts : Bool) :
    List (String × Bytes) :=
  [(targetVariable, options.targetDir), (fixtureVariable, options.outDir),
    (testRootVariable, testsRoot options.targetDir)] ++
    (if oneThread then [(threadsVariable, Utf8.encode "1")] else []) ++
    if keepArtifacts then [(keepVariable, Utf8.encode "1")] else []

theorem testCommand_eq (options : Options) (environment : Environment) (keepArtifacts : Bool) :
    testCommand options environment keepArtifacts =
      { program := (environment.named? programVariable).getD (Utf8.encode defaultProgram)
        arguments := ["test", "--workspace"] ++ if options.release then ["--release"] else []
        settings :=
          options.testSettings (environment.named? threadsVariable).isNone keepArtifacts
        directory := options.workspaceRoot } := by
  unfold testCommand switchedOn Options.testSettings
  cases options.release <;> cases (environment.named? threadsVariable).isNone <;>
    cases keepArtifacts <;> rfl

theorem map_testSettings_sublist (options : Options) (oneThread keepArtifacts : Bool) :
    ((options.testSettings oneThread keepArtifacts).map Prod.fst).Sublist testVariables := by
  cases oneThread <;> cases keepArtifacts <;>
    simp [Options.testSettings, testVariables]

/-- What the run of the tests is given: where builds are, where the fixtures are staged, where tests may
work, how many run at once, and whether they leave their files. All else is the environment of the
process. -/
structure GivenTests (options : Options) (world : World) (keepArtifacts : Bool) (call : Call) :
    Prop where
  arguments : call.arguments =
    ["test", "--workspace"] ++ if options.release then ["--release"] else []
  directory : call.directory = Path.placeFrom world.directory options.workspaceRoot
  target : call.environment.named? targetVariable = some options.targetDir
  fixtures : call.environment.named? fixtureVariable = some options.outDir
  testRoot : call.environment.named? testRootVariable = some (testsRoot options.targetDir)
  threads : call.environment.named? threadsVariable =
    some ((world.environment.named? threadsVariable).getD (Utf8.encode "1"))
  kept : call.environment.named? keepVariable =
    if keepArtifacts then some (Utf8.encode "1") else world.environment.named? keepVariable
  others : ∀ key, key ∉ testVariables.map Utf8.encode →
    call.environment.get? key = world.environment.get? key

def Options.testCall (options : Options) (world : World) (keepArtifacts : Bool) : Call :=
  (testCommand options world.environment keepArtifacts).call world

theorem givenTests_testCall (options : Options) (world : World) (keepArtifacts : Bool) :
    GivenTests options world keepArtifacts (options.testCall world keepArtifacts) := by
  have hnamed (key : String) : (options.testCall world keepArtifacts).environment.named? key =
      ((options.testSettings (world.environment.named? threadsVariable).isNone
        keepArtifacts).reverse.lookup key).or (world.environment.named? key) := by
    have hsettings := congrArg Command.settings
      (testCommand_eq options world.environment keepArtifacts)
    rw [Options.testCall, Command.call, Command.named?_environment, Command.env?, hsettings]
  refine ⟨?_, ?_, ?_, ?_, ?_, ?_, ?_, fun key hkey => Environment.get?_setAll_other fun s hs => ?_⟩
  · rw [Options.testCall, testCommand_eq]
    rfl
  · rw [Options.testCall, testCommand_eq]
    rfl
  · rw [hnamed]
    cases (world.environment.named? threadsVariable).isNone <;> cases keepArtifacts <;> rfl
  · rw [hnamed]
    cases (world.environment.named? threadsVariable).isNone <;> cases keepArtifacts <;> rfl
  · rw [hnamed]
    cases (world.environment.named? threadsVariable).isNone <;> cases keepArtifacts <;> rfl
  · rw [hnamed]
    cases world.environment.named? threadsVariable <;> cases keepArtifacts <;> rfl
  · rw [hnamed]
    cases (world.environment.named? threadsVariable).isNone <;> cases keepArtifacts <;> rfl
  · rw [testCommand_eq] at hs
    obtain ⟨setting, hmem, rfl⟩ := List.mem_map.mp hs
    rintro rfl
    have hvariable := (map_testSettings_sublist _ _ _).mem (List.mem_map_of_mem hmem)
    exact hkey (List.mem_map_of_mem hvariable)

/-! ### What the builds are given -/

theorem named?_buildCall (options : Options) (world : World) (arguments : List String)
    (variant : Int64) :
    (options.buildCall world arguments (some variant)).environment.named? variantVariable =
      some (Utf8.encode (signed variant.toInt)) := by
  rw [Environment.named?, Options.buildCall, Environment.get?_setAll]
  simp [Options.settings]

/-! ### Directories stay -/

theorem keeps_written (tree : Tree) (directory : Place) (writes : List (Path × Bytes)) :
    Tree.Keeps tree (World.written tree directory writes) := by
  induction writes generalizing tree with
  | nil => exact .refl tree
  | cons w writes ih =>
    exact (Tree.keeps_plant tree directory w.1 w.2).trans (ih (tree.plant directory w.1 w.2))

theorem Command.keeps (command : Command) (world : World) :
    Tree.Keeps world.tree (command.run world).2.tree := by
  cases hrefusal : command.refusal? world with
  | some e =>
    rw [Command.run_refused hrefusal]
    exact .refl _
  | none =>
    rw [Command.run_started hrefusal]
    exact keeps_written world.tree world.directory _

theorem copyInto_keeps (world : World) (source into : Path) (name : String) :
    Tree.Keeps world.tree (copyInto world source into name).2.tree := by
  unfold copyInto
  split
  · dsimp only
    split
    · exact .refl _
    · rename_i hcopy
      exact Tree.keeps_copy hcopy
  · exact .refl _

theorem Step.keeps (options : Options) (step : Step) (p : Progress) :
    Tree.Keeps p.world.tree (step.take options p).2.world.tree := by
  cases step with
  | build arguments variant => exact (buildCommand options p.world arguments variant).keeps p.world
  | keep built staged kind variant =>
    rw [world_take_keep]
    exact copyInto_keeps _ _ _ _

theorem Taken.keeps (h : Taken options steps p q) : Tree.Keeps p.world.tree q.world.tree := by
  induction h with
  | none => exact .refl _
  | @next step steps p mid q htake _ _ ih =>
    have hstep := step.keeps options p
    rw [htake] at hstep
    exact hstep.trans ih

/-! ### What can be started once can be started later -/

/-- The files have no part in it. -/
theorem Later.trees (h : Later world later) (before after : Tree) :
    Later { world with tree := before } { later with tree := after } :=
  ⟨h.directory, h.environment, h.programs, h.now, h.script⟩

theorem World.startingPlace_of_keeps {path : Path} {place : Place}
    (hdirectory : later.directory = world.directory) (hkeeps : Tree.Keeps world.tree later.tree)
    (h : world.startingPlace path = .ok place) : later.startingPlace path = .ok place := by
  obtain ⟨found, hlocate, hnode⟩ := ok_of_bind h
  split at hnode
  · rename_i hdir
    obtain rfl := Except.ok.inj hnode
    have hlater := hkeeps.locate hlocate hdir
    unfold World.startingPlace
    rw [hdirectory, hlater]
    simp only [bind, Except.bind, hkeeps found hdir]
  · cases hnode
  · cases hnode

theorem World.refusal?_of_keeps {program : Bytes} {path : Path}
    (hlater : Later world later) (hkeeps : Tree.Keeps world.tree later.tree)
    (h : world.refusal? program path = none) : later.refusal? program path = none := by
  unfold World.refusal? at h ⊢
  rw [hlater.programs]
  split at h
  · cases h
  · rename_i place hplace
    rw [World.startingPlace_of_keeps hlater.directory hkeeps hplace]
    exact h

theorem Command.isPlain_iff (command : Command) (environment : Environment) :
    command.isPlain environment = true ↔
      0 ∉ command.program ∧ (∀ a ∈ command.arguments, '\x00' ∉ a.toList) ∧ 0 ∉ command.directory ∧
        ∀ p ∈ (command.environment environment).pairs, 0 ∉ p.1 ∧ 0 ∉ p.2 := by
  simp [Command.isPlain, and_assoc]

theorem Path.nul_not_mem_joinText {directory : Path} {name : String} (h : 0 ∉ directory)
    (hname : 0 ∉ Utf8.encode name) : 0 ∉ Path.joinText directory name := by
  have hslash : (0 : UInt8) ≠ separator := by decide
  unfold Path.joinText Path.join
  split
  · exact hname
  · split
    · exact fun hmem => (List.mem_append.mp hmem).elim h hname
    · intro hmem
      rcases List.mem_append.mp hmem with hmem | hmem
      · exact h hmem
      · exact (List.mem_cons.mp hmem).elim hslash hname

theorem Options.testSettings_plain (hout : options.outDir = defaultOut options.targetDir)
    (htarget : 0 ∉ options.targetDir) (oneThread keepArtifacts : Bool) :
    ∀ s ∈ options.testSettings oneThread keepArtifacts, 0 ∉ Utf8.encode s.1 ∧ 0 ∉ s.2 := by
  have hone : 0 ∉ Utf8.encode "1" := by decide
  have hnames : ∀ name ∈ testVariables, 0 ∉ Utf8.encode name := by decide
  have hroot : 0 ∉ testsRoot options.targetDir := Path.nul_not_mem_joinText htarget (by decide)
  have hbin : 0 ∉ options.outDir := by
    rw [hout]
    exact Path.nul_not_mem_joinText (Path.nul_not_mem_joinText hroot (by decide)) (by decide)
  have hswitch (wanted : Bool) (key : String) :
      ∀ s ∈ if wanted then [(key, Utf8.encode "1")] else [], 0 ∉ s.2 := by
    cases wanted with
    | false => exact fun s hs => absurd hs List.not_mem_nil
    | true => exact List.forall_mem_singleton.mpr hone
  have hvalues : ∀ s ∈ options.testSettings oneThread keepArtifacts, 0 ∉ s.2 := by
    refine List.forall_mem_append.mpr ⟨List.forall_mem_append.mpr ⟨?_, hswitch _ _⟩, hswitch _ _⟩
    simp only [List.forall_mem_cons]
    exact ⟨htarget, hbin, hroot, nofun⟩
  intro s hs
  have hname := (map_testSettings_sublist _ _ _).mem (List.mem_map_of_mem hs)
  exact ⟨hnames _ hname, hvalues s hs⟩

/-- What is handed over to the tests has no NUL byte if what is handed over to the first build has
none. -/
theorem testCommand_isPlain (hout : options.outDir = defaultOut options.targetDir)
    {arguments : List String} (keepArtifacts : Bool)
    (h : (buildCommand options world arguments none).isPlain world.environment = true) :
    (testCommand options world.environment keepArtifacts).isPlain world.environment = true := by
  have hprogram : (buildCommand options world arguments none).program =
      (world.environment.named? programVariable).getD (Utf8.encode defaultProgram) := by
    simp [buildCommand, Options.command, Command.new]
  have henvironment : (buildCommand options world arguments none).environment world.environment =
      world.environment.set (Utf8.encode targetVariable) options.targetDir :=
    congrArg Call.environment (call_buildCommand options world arguments none)
  have hdirectory : (buildCommand options world arguments none).directory = options.workspaceRoot := by
    simp [buildCommand, Options.command, Command.new]
  rw [Command.isPlain_iff, hprogram, henvironment, hdirectory] at h
  obtain ⟨hprogram, -, hdirectory, hpairs⟩ := h
  obtain ⟨-, htarget⟩ := hpairs (Utf8.encode targetVariable, options.targetDir) List.mem_cons_self
  have harguments : ∀ release : Bool,
      ∀ a ∈ ["test", "--workspace"] ++ if release then ["--release"] else [], '\x00' ∉ a.toList := by
    decide
  rw [Command.isPlain_iff, testCommand_eq]
  refine ⟨hprogram, harguments _, hdirectory, fun p hp => ?_⟩
  rcases Environment.mem_pairs_setAll hp with hmem | ⟨hmem, hne⟩
  · obtain ⟨s, hs, rfl⟩ := List.mem_map.mp hmem
    exact Options.testSettings_plain hout htarget _ _ s hs
  · -- The variable that the first build sets is one of those that the tests are given.
    have hkey : p.1 ≠ Utf8.encode targetVariable :=
      hne (Utf8.encode targetVariable, options.targetDir) List.mem_cons_self
    exact hpairs p (List.mem_cons_of_mem _ (List.mem_filter.mpr ⟨hmem, bne_iff_ne.mpr hkey⟩))

/-- The tests can be started if the first build could be. -/
theorem testCommand_started (hout : options.outDir = defaultOut options.targetDir)
    {arguments : List String} (keepArtifacts : Bool) (hlater : Later world later)
    (hkeeps : Tree.Keeps world.tree later.tree)
    (h : (buildCommand options world arguments none).refusal? world = none) :
    (testCommand options later.environment keepArtifacts).refusal? later = none := by
  have hbuild : (buildCommand options world arguments none).isPlain world.environment = true ∧
      world.refusal? (buildCommand options world arguments none).program
        (buildCommand options world arguments none).directory = none := by
    unfold Command.refusal? at h
    split at h
    · rename_i hplain
      exact ⟨hplain, h⟩
    · cases h
  have hplain := testCommand_isPlain hout keepArtifacts hbuild.1
  have hstart := World.refusal?_of_keeps hlater hkeeps hbuild.2
  rw [hlater.environment, Command.refusal?, hlater.environment, if_pos hplain, testCommand_eq]
  simpa [buildCommand, Options.command, Command.new] using hstart

/-! ### How runs end -/

/-- How a run ends. -/
def endingOf (script : List Behaviour) (run : Nat) : Ending := (script[run]?.getD .idle).ending

theorem endingOf_zero (script : List Behaviour) : endingOf script 0 = (script.headD .idle).ending := by
  cases script <;> rfl

theorem endingOf_tail (script : List Behaviour) (run : Nat) :
    endingOf script.tail run = endingOf script (run + 1) := by
  cases script <;> rfl

theorem endingOf_drop (script : List Behaviour) (used run : Nat) :
    endingOf (script.drop used) run = endingOf script (used + run) := by
  rw [endingOf, endingOf, List.getElem?_drop]

theorem Taken.script (h : Taken options steps p q) :
    q.world.script = p.world.script.drop (builds steps) := by
  induction h with
  | none => rfl
  | next _ hstep _ ih =>
    cases hstep with
    | build =>
      rw [ih, builds]
      exact List.drop_tail
    | keep => exact ih

/-- The runs of builds that were all taken have succeeded. -/
theorem Taken.endings (h : Taken options steps p q) :
    ∀ run < builds steps, endingOf p.world.script run = .exited 0 := by
  induction h with
  | none => exact nofun
  | next _ hstep _ ih =>
    cases hstep with
    | build _ hend =>
      intro run hrun
      cases run with
      | zero => rwa [endingOf_zero]
      | succ run =>
        rw [← endingOf_tail]
        exact ih run (Nat.lt_of_succ_lt_succ hrun)
    | keep => exact ih

theorem length_filterMap_callOf (options : Options) (world : World) (steps : List Step) :
    (steps.filterMap (options.callOf world)).length = builds steps := by
  induction steps with
  | nil => rfl
  | cons step steps ih =>
    cases step with
    | build arguments variant => exact congrArg (· + 1) ih
    | keep => exact ih

/-! ### The runs of a staging -/

/-- Runs up to a failure: they are the first of all, and none comes after one that fails. The failure
is that of the last run exactly if this one has failed. -/
structure CutShort (script : List Behaviour) (all runs : List Call) (e : Failure) : Prop where
  first : runs <+: all
  before : ∀ run, run + 1 < runs.length → endingOf script run = .exited 0
  cause : e.followsRun = true ↔ ∃ run, run + 1 = runs.length ∧ endingOf script run ≠ .exited 0

theorem cutShort_of_successes {script : List Behaviour} {all runs : List Call} {e : Failure}
    (hfirst : runs <+: all) (hends : ∀ run < runs.length, endingOf script run = .exited 0)
    (hcause : e.followsRun = false) : CutShort script all runs e := by
  refine ⟨hfirst, fun run hrun => hends run (by omega), ?_⟩
  rw [hcause]
  refine iff_of_false Bool.false_ne_true ?_
  rintro ⟨run, hlast, hne⟩
  exact hne (hends run (by omega))

/-- A step that fails has made no run, or one that has failed. -/
theorem Fails.lastCall {e : Failure} {last : World} (h : Fails options step p e last) :
    (e.followsRun = false ∧ options.lastCall p.world step e = []) ∨
      e.followsRun = true ∧ endingOf p.world.script 0 ≠ .exited 0 ∧
        ∃ call, options.callOf p.world step = some call ∧
          options.lastCall p.world step e = [call] := by
  cases h with
  | spawn => exact .inl ⟨rfl, rfl⟩
  | command _ hend =>
    rw [← endingOf_zero] at hend
    exact .inr ⟨rfl, hend, _, rfl, rfl⟩
  | missing => exact .inl ⟨rfl, rfl⟩
  | copy => exact .inl ⟨rfl, rfl⟩

theorem stopped_cutShort {done rest : List Step} {mid : Progress} {e : Failure} {last : World}
    (hsplit : sequence = done ++ step :: rest) (htaken : Taken options done (options.begun world) mid)
    (hfails : Fails options step mid e last) :
    ∃ runs, last.calls = world.calls ++ runs ∧
      CutShort world.script (sequence.filterMap (options.callOf world)) runs e := by
  have hlength := length_filterMap_callOf options world done
  have hends : ∀ run < builds done, endingOf world.script run = .exited 0 := htaken.endings
  have hcallOf : options.callOf mid.world = options.callOf world := htaken.later.callOf
  have hcalls : last.calls =
      world.calls ++ (done.filterMap (options.callOf world) ++ options.lastCall mid.world step e) := by
    have htakenCalls : mid.world.calls = world.calls ++ done.filterMap (options.callOf world) :=
      htaken.calls
    rw [hfails.calls, htakenCalls, List.append_assoc]
  have hall : sequence.filterMap (options.callOf world) = done.filterMap (options.callOf world) ++
      ((options.callOf world step).toList ++ rest.filterMap (options.callOf world)) := by
    rw [hsplit, List.filterMap_append, List.filterMap_cons]
    cases options.callOf world step <;> rfl
  refine ⟨_, hcalls, ?_⟩
  rcases hfails.lastCall with ⟨hcause, hnone⟩ | ⟨hcause, hend, call, hcall, hone⟩
  · rw [hnone, List.append_nil]
    rw [← hlength] at hends
    exact cutShort_of_successes (hall ▸ List.prefix_append _ _) hends hcause
  · have hscript : mid.world.script = world.script.drop (builds done) := htaken.script
    rw [hscript, endingOf_drop, Nat.add_zero] at hend
    rw [hcallOf] at hcall
    rw [hone]
    have hsize : (done.filterMap (options.callOf world) ++ [call]).length = builds done + 1 := by
      rw [List.length_append, hlength, List.length_singleton]
    refine ⟨?_, fun run hrun => hends run (by omega), ?_⟩
    · rw [hall, hcall]
      exact ⟨rest.filterMap (options.callOf world), by simp⟩
    · exact iff_of_true hcause ⟨builds done, hsize.symm, hend⟩

/-- A staging that has come to its end: it has made all its runs, its index is in the output directory,
and the tests can be started. -/
structure Ready (options : Options) (world : World) (keepArtifacts : Bool) (index : Index)
    (last : World) : Prop where
  later : Later world last
  calls : last.calls = world.calls ++ sequence.filterMap (options.callOf world)
  endings : ∀ run < 4, endingOf world.script run = .exited 0
  script : last.script = world.script.drop 4
  started : (testCommand options last.environment keepArtifacts).refusal? last = none
  index : last.tree.file? (options.stagedAt world.directory indexFile) =
    some (Utf8.encode (index.text ++ "\n"))

theorem Taken.started (h : Taken options sequence p q) :
    (buildCommand options p.world ["-p", "lwtest-b"] Option.none).refusal? p.world = Option.none := by
  cases h with
  | next _ hstep _ =>
    cases hstep with
    | build hrefusal _ => exact hrefusal

/-- A staging into the directory below the target directory is cut short by a failure, or is ready for
the tests. -/
theorem stage_runs (options : Options) (world : World) (keepArtifacts : Bool)
    (hout : options.outDir = defaultOut options.targetDir)
    (hne : options.outPlace world.directory ≠ options.profilePlace world.directory) :
    (∃ e last runs, stage options world = (.error e, last) ∧ last.calls = world.calls ++ runs ∧
        CutShort world.script (sequence.filterMap (options.callOf world)) runs e) ∨
      ∃ index last, stage options world = (.ok index, last) ∧
        Ready options world keepArtifacts index last := by
  rcases stage_cases options world hne with ⟨e, tree, -, hstage⟩ | ⟨-, hsteps⟩
  · refine .inl ⟨_, _, [], hstage, (List.append_nil _).symm, ?_⟩
    exact cutShort_of_successes List.nil_prefix nofun rfl
  · rcases hsteps with
      ⟨done, step, rest, mid, e, last, hsplit, htaken, hfails, hstage⟩ | ⟨mid, htaken, hindex⟩
    · obtain ⟨runs, hcalls, hcut⟩ := stopped_cutShort hsplit htaken hfails
      exact .inl ⟨e, last, runs, hstage, hcalls, hcut⟩
    · have htrees := htaken.later.trees world.tree mid.world.tree
      have hlater : Later world mid.world := htrees
      have hcalls : mid.world.calls = world.calls ++ sequence.filterMap (options.callOf world) :=
        htaken.calls
      have hends : ∀ run < 4, endingOf world.script run = .exited 0 := htaken.endings
      rcases hindex with ⟨e, -, hstage⟩ | ⟨tree, hwrite, hstage⟩
      · have hlength := length_filterMap_callOf options world sequence
        refine .inl ⟨_, _, _, hstage, hcalls, cutShort_of_successes List.prefix_rfl ?_ rfl⟩
        rw [hlength]
        exact hends
      · have hbegun : Later (options.begun world).world { mid.world with tree := tree } :=
          hlater.trees _ tree
        have hkeeps := htaken.keeps.trans (Tree.keeps_write hwrite)
        have hdirectory : mid.world.directory = world.directory := hlater.directory
        obtain ⟨htree, hfits⟩ := Tree.write_ok hwrite
        rw [hdirectory, placeFrom_indexPath] at htree hfits
        refine .inr ⟨_, _, hstage, hlater.trees world.tree tree, hcalls, hends, htaken.script,
          testCommand_started hout keepArtifacts hbegun hkeeps htaken.started, ?_⟩
        rw [htree]
        exact Tree.file?_set_self hfits

/-! ### Requests for the tests -/

/-- The runs of a request for the tests, if nothing fails. -/
def Options.testRuns (options : Options) (world : World) (keepArtifacts : Bool) : List Call :=
  [options.buildCall world ["-p", "lwtest-b"] none,
   options.buildCall world ["-p", "lwtest-host", "--bins"] none,
   options.buildCall world ["-p", "lwtest-a"] (some 1),
   options.buildCall world ["-p", "lwtest-a"] (some 2),
   options.testCall world keepArtifacts]

theorem testRuns_eq (options : Options) (world : World) (keepArtifacts : Bool) :
    options.testRuns world keepArtifacts =
      sequence.filterMap (options.callOf world) ++ [options.testCall world keepArtifacts] := rfl

theorem placeFrom_joinText (directory : Place) (into : Path) {name : String}
    (hname : PlainName (Utf8.encode name)) :
    Path.placeFrom directory (Path.joinText into name) =
      Path.placeFrom directory into ++ [Utf8.encode name] :=
  Path.placeFrom_join hname directory into

theorem placeFrom_testsRoot (directory : Place) (target : Path) :
    Path.placeFrom directory (testsRoot target) =
      Path.placeFrom directory target ++ [Utf8.encode "lwtest-tests"] :=
  placeFrom_joinText directory target (by decide)

/-- The directory for fixtures is below the one for tests. -/
theorem placeFrom_defaultOut (directory : Place) (target : Path) :
    Path.placeFrom directory (defaultOut target) =
      Path.placeFrom directory target ++
        [Utf8.encode "lwtest-tests", Utf8.encode "fixtures", Utf8.encode "bin"] := by
  rw [defaultOut, placeFrom_joinText _ _ (by decide), placeFrom_joinText _ _ (by decide),
    placeFrom_testsRoot, List.append_assoc, List.append_assoc]
  rfl

theorem outPlace_ne_profilePlace (hout : options.outDir = defaultOut options.targetDir)
    (directory : Place) : options.outPlace directory ≠ options.profilePlace directory := by
  intro hsame
  have hlength := congrArg List.length hsame
  rw [Options.profilePlace_eq, Options.outPlace, hout, placeFrom_defaultOut] at hlength
  simp at hlength

/-- How a request for the tests comes out: which runs it makes, and the code with which the program
ends. -/
structure Tested (options : Options) (world : World) (keepArtifacts : Bool) (runs : List Call)
    (code : UInt8) : Prop where
  first : runs <+: options.testRuns world keepArtifacts
  before : ∀ run, run + 1 < runs.length → endingOf world.script run = .exited 0
  staged : runs.length = 5 ↔ (stage options world).1.isOk = true
  cause : ∀ e, (stage options world).1 = .error e → (e.followsRun = true ↔
    ∃ run, run + 1 = runs.length ∧ endingOf world.script run ≠ .exited 0)
  index : ∀ index, (stage options world).1 = .ok index →
    (stage options world).2.tree.file? (options.stagedAt world.directory indexFile) =
      some (Utf8.encode (index.text ++ "\n"))
  success : code = 0 ↔ runs.length = 5 ∧ ∀ run < 5, endingOf world.script run = .exited 0
  failure : code ≠ 0 → code = 1

theorem tested_of_cutShort {e : Failure} {last : World} {runs : List Call} (keepArtifacts : Bool)
    (hstage : stage options world = (.error e, last))
    (h : CutShort world.script (sequence.filterMap (options.callOf world)) runs e) :
    Tested options world keepArtifacts runs 1 := by
  have hlength : runs.length ≤ 4 := h.first.length_le
  have hfailed : (1 : UInt8) ≠ 0 := by decide
  refine ⟨h.first.trans (List.prefix_append _ _), h.before, ?_, ?_, ?_, ?_, fun _ => rfl⟩
  · rw [hstage]
    exact iff_of_false (by omega) Bool.false_ne_true
  · intro e' he'
    rw [hstage] at he'
    obtain rfl := Except.error.inj he'
    exact h.cause
  · intro index hindex
    rw [hstage] at hindex
    cases hindex
  · exact iff_of_false hfailed fun hall => absurd hall.1 (by omega)

theorem tested_of_ready {index : Index} {last : World} {code : UInt8}
    (hstage : stage options world = (.ok index, last))
    (h : Ready options world keepArtifacts index last)
    (hcode : code = if endingOf world.script 4 = .exited 0 then 0 else 1) :
    Tested options world keepArtifacts (options.testRuns world keepArtifacts) code := by
  have hlength : (options.testRuns world keepArtifacts).length = 5 := rfl
  have hends (run : Nat) (hrun : run < 4) := h.endings run hrun
  refine ⟨List.prefix_rfl, fun run hrun => hends run (by omega), ?_, ?_, ?_, ?_, ?_⟩
  · rw [hstage]
    exact iff_of_true hlength rfl
  · intro e he
    rw [hstage] at he
    cases he
  · intro index' hindex
    rw [hstage] at hindex ⊢
    obtain rfl := Except.ok.inj hindex
    exact h.index
  · rw [hcode]
    by_cases hlast : endingOf world.script 4 = .exited 0
    · rw [if_pos hlast]
      refine iff_of_true rfl ⟨hlength, fun run hrun => ?_⟩
      rcases Nat.lt_succ_iff_lt_or_eq.mp hrun with hrun | rfl
      · exact hends run hrun
      · exact hlast
    · rw [if_neg hlast]
      exact iff_of_false (by decide) fun hall => hlast (hall.2 4 (by omega))
  · rw [hcode]
    by_cases hlast : endingOf world.script 4 = .exited 0
    · rw [if_pos hlast]
      exact fun hne => absurd rfl hne
    · rw [if_neg hlast]
      exact fun _ => rfl

theorem serve_test_error {root : Path} {process : ProcessId} {release : Bool} {e : Failure}
    {last : World}
    (h : stage (Options.of world.environment root process none release) world = (.error e, last)) :
    serve root process (.test release keepArtifacts) world = (.error e, last) := by
  simp only [serve, h]

theorem serve_test_ok {root : Path} {process : ProcessId} {release : Bool} {index : Index}
    {last : World}
    (h : stage (Options.of world.environment root process none release) world = (.ok index, last)) :
    serve root process (.test release keepArtifacts) world =
      (testCommand (Options.of world.environment root process none release) last.environment
        keepArtifacts).run last := by
  simp only [serve, h]

/-- A test request is served by a staging, and by the tests if the staging has come to its end. -/
theorem serve_tested (root : Path) (process : ProcessId) (release keepArtifacts : Bool)
    (world : World) :
    let options := Options.of world.environment root process none release
    let served := serve root process (.test release keepArtifacts) world
    ∃ runs, served.2.calls = world.calls ++ runs ∧
      Tested options world keepArtifacts runs (if served.1.isOk then 0 else 1) := by
  intro options served
  have hout : options.outDir = defaultOut options.targetDir := rfl
  rcases stage_runs options world keepArtifacts hout (outPlace_ne_profilePlace hout _) with
    ⟨e, last, runs, hstage, hcalls, hcut⟩ | ⟨index, last, hstage, hready⟩
  · have hresult : served = (.error e, last) := serve_test_error hstage
    rw [hresult]
    exact ⟨runs, hcalls, tested_of_cutShort keepArtifacts hstage hcut⟩
  · have henvironment : last.environment = world.environment := hready.later.environment
    have hdirectory : last.directory = world.directory := hready.later.directory
    have hcall : (testCommand options last.environment keepArtifacts).call last =
        options.testCall world keepArtifacts := by
      rw [Options.testCall, Command.call, Command.call, hdirectory, henvironment]
    have hrun := Command.run_started hready.started
    rw [hready.script, ← endingOf_zero, endingOf_drop] at hrun
    have hresult : served = (testCommand options last.environment keepArtifacts).run last :=
      serve_test_ok hstage
    rw [hresult, hrun]
    refine ⟨_, ?_, tested_of_ready hstage hready ?_⟩
    · rw [testRuns_eq, ← List.append_assoc, ← hready.calls, ← hcall]
      rfl
    · by_cases hlast : endingOf world.script 4 = .exited 0
      · simp only [hlast, if_true, Except.isOk, Except.toBool]
      · simp only [hlast, if_false, Except.isOk, Except.toBool, Bool.false_eq_true]

/-- What is handed over to a run is what its program finds, if the process has a proper environment. -/
theorem found?_testRuns (options : Options) (keepArtifacts : Bool) (h : world.environment.Proper) :
    ∀ call ∈ options.testRuns world keepArtifacts, ∀ name, name ≠ [] →
      Environment.equalsSign ∉ name → call.environment.found? name = call.environment.get? name := by
  have hvariables : ∀ name ∈ variantVariable :: testVariables,
      Environment.equalsSign ∉ Utf8.encode name := by decide
  have hbuild (arguments : List String) (variant : Option Int64) :
      (options.buildCall world arguments variant).environment.Proper := by
    refine h.setAll fun s hs => ?_
    rcases List.mem_cons.mp hs with rfl | hs
    · exact hvariables targetVariable (by simp [testVariables])
    · obtain ⟨v, -, rfl⟩ := List.mem_map.mp hs
      exact hvariables variantVariable List.mem_cons_self
  have htests : (options.testCall world keepArtifacts).environment.Proper := by
    refine h.setAll fun s hs => ?_
    obtain ⟨setting, hmem, rfl⟩ := List.mem_map.mp hs
    rw [testCommand_eq] at hmem
    have hname := (map_testSettings_sublist _ _ _).mem (List.mem_map_of_mem hmem)
    exact hvariables _ (List.mem_cons_of_mem _ hname)
  have hall : ∀ call ∈ options.testRuns world keepArtifacts, call.environment.Proper := by
    simp only [Options.testRuns, List.forall_mem_cons]
    exact ⟨hbuild _ _, hbuild _ _, hbuild _ _, hbuild _ _, htests, nofun⟩
  exact fun call hcall name hname hplain => (hall call hcall).found? hname hplain

/-- The runs of a request for the tests are the first of five, up to a failure; all five are made
exactly if the staging comes to its end, and the program succeeds exactly if all five are made and do. -/
theorem tests_run_on_staged (root : Path) (process : ProcessId) (world : World)
    {arguments : List Bytes} {release keepArtifacts : Bool}
    (hrequest : Request.ofArguments arguments = .ok (.test release keepArtifacts)) :
    let options := Options.of world.environment root process none release
    let ended := runProgram root process arguments world
    let all := options.testRuns world keepArtifacts
    (∃ runs, ended.2.calls = world.calls ++ runs ∧
        Tested options world keepArtifacts runs ended.1.code) ∧
      (∀ call ∈ all[4]?, GivenTests options world keepArtifacts call) ∧
      (∀ call ∈ all[2]?, call.environment.named? variantVariable = some (Utf8.encode "1")) ∧
      (∀ call ∈ all[3]?, call.environment.named? variantVariable = some (Utf8.encode "2")) ∧
      (world.environment.Proper → ∀ call ∈ all, ∀ name, name ≠ [] →
        Environment.equalsSign ∉ name →
          call.environment.found? name = call.environment.get? name) := by
  intro options ended all
  refine ⟨?_, ?_, ?_, ?_, found?_testRuns options keepArtifacts⟩
  · obtain ⟨runs, hcalls, htested⟩ := serve_tested root process release keepArtifacts world
    have hended : ended.2.calls =
          (serve root process (.test release keepArtifacts) world).2.calls ∧
        ended.1.code =
          if (serve root process (.test release keepArtifacts) world).1.isOk then 0 else 1 := by
      simp only [ended, runProgram, hrequest]
      cases serve root process (.test release keepArtifacts) world with
      | mk result last => cases result <;> exact ⟨rfl, rfl⟩
    refine ⟨runs, hended.1.trans hcalls, ?_⟩
    rw [hended.2]
    exact htested
  · rintro call ⟨⟩
    exact givenTests_testCall options world keepArtifacts
  · rintro call ⟨⟩
    exact named?_buildCall options world _ 1
  · rintro call ⟨⟩
    exact named?_buildCall options world _ 2

/-- Tests that fail, run from an environment with a variant and an empty wish for threads of its own. -/
def failingTests : World :=
  { sampleWorld (sampleBuilds ++ [sampleBuild [] (.exited 101)]) with
    environment := .ofPairs [(Utf8.encode variantVariable, Utf8.encode "9"),
      (Utf8.encode threadsVariable, [])] }

def keepingArguments : List Bytes := [Utf8.encode "test", Utf8.encode "--keep-artifacts"]

/-- All five runs are made, the last of them fails, and so does the program. -/
theorem failing_tests_run_on_staged :
    let root := Utf8.encode "/work"
    let options := Options.of failingTests.environment root besideProcess none false
    let ended := runProgram root besideProcess keepingArguments failingTests
    Request.ofArguments keepingArguments = .ok (.test false true) ∧ ended.1.code = 1 ∧
      ∃ runs, ended.2.calls = failingTests.calls ++ runs ∧ runs.length = 5 ∧
        Tested options failingTests true runs ended.1.code := by
  have hrequest : Request.ofArguments keepingArguments = .ok (.test false true) :=
    ok_of_toOption (by decide +kernel)
  have hmade : (runProgram (Utf8.encode "/work") besideProcess keepingArguments
        failingTests).2.calls.length = 5 ∧
      (runProgram (Utf8.encode "/work") besideProcess keepingArguments failingTests).1.code = 1 := by
    decide +kernel
  obtain ⟨runs, hcalls, htested⟩ :=
    (tests_run_on_staged (Utf8.encode "/work") besideProcess failingTests hrequest).1
  have hlength : runs.length = 5 := by
    have hcount := hmade.1
    rw [hcalls, List.length_append] at hcount
    exact (Nat.zero_add _).symm.trans hcount
  exact ⟨hrequest, hmade.2, runs, hcalls, hlength, htested⟩

end LoaderBench.Staging
