import LoaderBench.Proofs.Staging.TestRun

/-!
# Where the tests look

The run of the tests is told of two directories: the one into which the fixtures were staged, and the one
in which tests may work. Both are below the target directory, and both are handed over as paths of the
process that stages, while the run starts in the workspace root. So they lead to what the process means
if the two share the target directory. If they do not, a relative path that does not go up sends the run
to two other directories.
-/

namespace LoaderBench.Staging

open LoaderBench.Artifact LoaderBench.CommandLine LoaderBench.FileTree LoaderBench.Platform
  LoaderBench.Text

variable {options : Options} {world : World} {keepArtifacts : Bool} {call : Call}

/-! ### The two directories -/

/-- Whether a run is sent to the directory with the staged fixtures. -/
def Call.FindsFixtures (options : Options) (directory : Place) (call : Call) : Prop :=
  call.handedPlace? fixtureVariable = some (options.outPlace directory)

/-- Whether a run is sent to the directory for tests. -/
def Call.FindsTestRoot (options : Options) (directory : Place) (call : Call) : Prop :=
  call.handedPlace? testRootVariable =
    some (Path.placeFrom directory (testsRoot options.targetDir))

instance (options : Options) (directory : Place) (call : Call) :
    Decidable (call.FindsFixtures options directory) :=
  inferInstanceAs (Decidable (_ = _))

instance (options : Options) (directory : Place) (call : Call) :
    Decidable (call.FindsTestRoot options directory) :=
  inferInstanceAs (Decidable (_ = _))

theorem GivenTests.findsFixtures_iff (h : GivenTests options world keepArtifacts call)
    (hout : options.outDir = defaultOut options.targetDir) :
    call.FindsFixtures options world.directory ↔
      Path.placeFrom call.directory options.targetDir =
        Path.placeFrom world.directory options.targetDir := by
  rw [Call.FindsFixtures, Call.handedPlace?_eq h.fixtures, Options.outPlace, hout,
    placeFrom_defaultOut, placeFrom_defaultOut]
  exact ⟨fun hsame => List.append_cancel_right (Option.some.inj hsame), fun hsame => by rw [hsame]⟩

theorem GivenTests.findsTestRoot_iff (h : GivenTests options world keepArtifacts call) :
    call.FindsTestRoot options world.directory ↔
      Path.placeFrom call.directory options.targetDir =
        Path.placeFrom world.directory options.targetDir := by
  rw [Call.FindsTestRoot, Call.handedPlace?_eq h.testRoot, placeFrom_testsRoot, placeFrom_testsRoot]
  exact ⟨fun hsame => List.append_cancel_right (Option.some.inj hsame), fun hsame => by rw [hsame]⟩

/-! ### The run of the tests -/

/-- The fifth run of a request, if there is one, is the run of the tests. -/
theorem eq_testCall_of_getElem? {runs : List Call}
    (hfirst : runs <+: options.testRuns world keepArtifacts) (h : runs[4]? = some call) :
    call = options.testCall world keepArtifacts := by
  obtain ⟨rest, hall⟩ := hfirst
  have hlast : (options.testRuns world keepArtifacts)[4]? =
      some (options.testCall world keepArtifacts) := rfl
  rw [← hall, List.getElem?_append_left (List.getElem?_eq_some_iff.mp h).1, h] at hlast
  exact Option.some.inj hlast

/-- The run of the tests is sent to the staged fixtures, and to the directory for tests, if the target
directory is shared; and under a relative path that does not go up it is sent to either of them only
then. -/
theorem tests_look_where_staged (root : Path) (process : ProcessId) (release keepArtifacts : Bool)
    (world : World) (hroot : Path.isAbsolute root = true) :
    let options := Options.of world.environment root process none release
    ∃ runs, (serve root process (.test release keepArtifacts) world).2.calls = world.calls ++ runs ∧
      ∀ call, runs[4]? = some call →
        (SharesTarget root world →
          call.FindsFixtures options world.directory ∧ call.FindsTestRoot options world.directory) ∧
        (above ∉ Path.steps options.targetDir →
          call.FindsFixtures options world.directory ∨ call.FindsTestRoot options world.directory →
            SharesTarget root world) := by
  intro options
  obtain ⟨runs, hcalls, htested⟩ := serve_tested root process release keepArtifacts world
  refine ⟨runs, hcalls, fun call hcall => ?_⟩
  obtain rfl := eq_testCall_of_getElem? htested.first hcall
  have hgiven := givenTests_testCall options world keepArtifacts
  have hout : options.outDir = defaultOut options.targetDir := rfl
  obtain ⟨hshared, honly⟩ := placeFrom_targetOf root world hroot
  rw [hgiven.findsFixtures_iff hout, hgiven.findsTestRoot_iff, hgiven.directory, or_self, and_self]
  exact ⟨hshared, honly⟩

/-- Under a relative path the tests are sent to directories of the workspace in which nothing is, while
the fixtures are staged beside it. -/
example :
    let world := besideWorld (.ofPairs [(Utf8.encode targetVariable, Utf8.encode "target")])
    let options := Options.of world.environment workspaceRoot besideProcess none false
    let served := serve workspaceRoot besideProcess (.test false true) world
    served.1.isOk = true ∧ served.2.calls.length = 5 ∧
      (∀ call ∈ served.2.calls[4]?, ¬ call.FindsFixtures options world.directory ∧
        ∀ place ∈ call.handedPlace? fixtureVariable, served.2.tree.node? place = none) ∧
      served.2.tree.node? (options.outPlace world.directory) = some .directory := by
  decide +kernel

end LoaderBench.Staging
