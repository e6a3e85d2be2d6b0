import LoaderBench.Proofs.Staging.Course

/-!
# The whole of a staging

A staging creates its output directory, takes the ten steps of `sequence`, and writes the index. It
ends with the first of these that fails. `stagedFiles` is what the steps stage.
-/

namespace LoaderBench.Staging

open LoaderBench.Artifact LoaderBench.FileTree LoaderBench.Platform LoaderBench.Text

variable {options : Options}

/-! ### From start to end -/

def sequence : List Step :=
  [.build ["-p", "lwtest-b"] none,
   .build ["-p", "lwtest-host", "--bins"] none,
   .build ["-p", "lwtest-a"] (some 1),
   .keep "liblwtest_a.so" "liblwtest_a_v1.so" .library (some 1),
   .keep "liblwtest_a.so" "liblwtest_a.so" .library (some 1),
   .build ["-p", "lwtest-a"] (some 2),
   .keep "liblwtest_a.so" "liblwtest_a_v2.so" .library (some 2),
   .keep "liblwtest_b.so" "liblwtest_b.so" .library none,
   .keep "host_dynamic_loadlibrary_fullpath" "host_dynamic_loadlibrary_fullpath" .host none,
   .keep "host_dynamic_loadlibrary_name" "host_dynamic_loadlibrary_name" .host none]

theorem plan_eq_sequence : plan = sequence := by decide

/-- A staging whose output directory has been created. -/
def Options.begun (options : Options) (world : World) : Progress :=
  ⟨{ world with tree := (world.tree.makeDirectories world.directory options.outDir).2 },
    .new world.now options.runId options.profile⟩

theorem file?_begun (options : Options) (world : World) (place : Place) :
    (options.begun world).world.tree.file? place = world.tree.file? place :=
  (Tree.grows_makeChain world.tree world.directory (Path.ancestors options.outDir)).file? place

theorem plain_of_mem_sequence : ∀ step ∈ sequence, step.Plain := by decide

theorem nodup_stagedNames_sequence : (stagedNames sequence).Nodup := by decide

theorem indexFile_not_mem_sequence : indexFile ∉ stagedNames sequence := by decide

theorem placeFrom_indexPath (options : Options) (directory : Place) :
    Path.placeFrom directory (indexPath options.outDir) = options.stagedAt directory indexFile :=
  Options.placeFrom_staged options directory (by decide)

/-- A staging fails at once, or with a step, or with the index, or it comes to its end. -/
theorem stage_cases (options : Options) (world : World)
    (hne : options.outPlace world.directory ≠ options.profilePlace world.directory) :
    (∃ e tree, world.tree.makeDirectories world.directory options.outDir = (.error e, tree) ∧
        stage options world =
          (.error (failing "create" options.outDir e), { world with tree := tree })) ∨
      (world.tree.makeDirectories world.directory options.outDir =
          (.ok (), (options.begun world).world.tree) ∧
        ((∃ done step rest mid e last, sequence = done ++ step :: rest ∧
            Taken options done (options.begun world) mid ∧ Fails options step mid e last ∧
            stage options world = (.error e, last)) ∨
          ∃ mid, Taken options sequence (options.begun world) mid ∧
            ((∃ e, mid.world.tree.write mid.world.directory (indexPath options.outDir)
                  (Utf8.encode (mid.index.text ++ "\n")) = .error e ∧
                stage options world =
                  (.error (failing "write" (indexPath options.outDir) e), mid.world)) ∨
              ∃ tree, mid.world.tree.write mid.world.directory (indexPath options.outDir)
                  (Utf8.encode (mid.index.text ++ "\n")) = .ok tree ∧
                stage options world = (.ok mid.index, { mid.world with tree := tree })))) := by
  rw [stage, plan_eq_sequence]
  cases hmake : world.tree.makeDirectories world.directory options.outDir with
  | mk made tree =>
    cases made with
    | error e => exact .inl ⟨e, tree, rfl, rfl⟩
    | ok u =>
      have hbegun : Progress.mk { world with tree := tree }
          (.new world.now options.runId options.profile) = options.begun world := by
        rw [Options.begun, hmake]
      refine .inr ⟨by rw [Options.begun, hmake], ?_⟩
      dsimp only
      rw [hbegun]
      rcases takeAll_cases plain_of_mem_sequence (options.begun world) hne with
        ⟨mid, htake, htaken⟩ | ⟨done, step, rest, mid, e, last, hplan, htaken, hfails, htake⟩
      · refine .inr ⟨mid, htaken, ?_⟩
        rw [htake]
        dsimp only
        cases hwrite : mid.world.tree.write mid.world.directory (indexPath options.outDir)
            (Utf8.encode (mid.index.text ++ "\n")) with
        | error e =>
          refine .inl ⟨e, rfl, ?_⟩
          rw [writeIndex, hwrite]
          rfl
        | ok tree =>
          refine .inr ⟨tree, rfl, ?_⟩
          rw [writeIndex, hwrite]
          rfl
      · refine .inl ⟨done, step, rest, mid, e, last, hplan, htaken, hfails, ?_⟩
        rw [htake]

/-- A staging that succeeds has taken all steps, and then has written their index. -/
theorem stage_ok {world last : World} {index : Index}
    (hne : options.outPlace world.directory ≠ options.profilePlace world.directory)
    (h : stage options world = (.ok index, last)) :
    world.tree.makeDirectories world.directory options.outDir =
        (.ok (), (options.begun world).world.tree) ∧
      ∃ mid, Taken options sequence (options.begun world) mid ∧ index = mid.index ∧
        last.tree.file? (options.stagedAt world.directory indexFile) =
          some (Utf8.encode (index.text ++ "\n")) ∧
        ∀ place, place ≠ options.stagedAt world.directory indexFile →
          last.tree.node? place = mid.world.tree.node? place := by
  rcases stage_cases options world hne with ⟨e, tree, -, hstage⟩ | ⟨hmake, hsteps⟩
  · rw [h] at hstage
    cases hstage
  · refine ⟨hmake, ?_⟩
    rcases hsteps with ⟨done, step, rest, mid, e, stopped, -, -, -, hstage⟩ |
      ⟨mid, htaken, ⟨e, -, hstage⟩ | ⟨tree, hwrite, hstage⟩⟩
    · rw [h] at hstage
      cases hstage
    · rw [h] at hstage
      cases hstage
    · rw [h] at hstage
      cases hstage
      have hdirectory : mid.world.directory = world.directory := htaken.later.directory
      obtain ⟨htree, hfits⟩ := Tree.write_ok hwrite
      rw [hdirectory, placeFrom_indexPath] at htree hfits
      rw [htree]
      exact ⟨mid, htaken, rfl, Tree.file?_set_self hfits, fun place hplace =>
        Tree.node?_set_other _ _ hplace⟩

/-- What a staging stages, in its order. -/
def stagedFiles : List Kept :=
  [⟨"liblwtest_a.so", "liblwtest_a_v1.so", .library, some 1, 3⟩,
   ⟨"liblwtest_a.so", "liblwtest_a.so", .library, some 1, 3⟩,
   ⟨"liblwtest_a.so", "liblwtest_a_v2.so", .library, some 2, 4⟩,
   ⟨"liblwtest_b.so", "liblwtest_b.so", .library, none, 4⟩,
   ⟨"host_dynamic_loadlibrary_fullpath", "host_dynamic_loadlibrary_fullpath", .host, none, 4⟩,
   ⟨"host_dynamic_loadlibrary_name", "host_dynamic_loadlibrary_name", .host, none, 4⟩]

theorem kept_sequence : kept sequence = stagedFiles := by decide

theorem stagedNames_sequence : stagedNames sequence = stagedFiles.map Kept.staged := by
  rw [stagedNames, kept_sequence]

theorem staged_ne_indexFile : ∀ k ∈ stagedFiles, k.staged ≠ indexFile := by decide

def Options.treeAfterRun (options : Options) (world : World) (runs : Nat) : Tree :=
  treeAfter options runs sequence (options.begun world)

def Options.contentOf (options : Options) (world : World) (k : Kept) : Bytes :=
  builtFor options sequence (options.begun world) k

/-- The index of a staging that succeeds tells what was built, and this is what was staged. -/
theorem contents_of_ok {world last : World} {index : Index}
    (hne : options.outPlace world.directory ≠ options.profilePlace world.directory)
    (hcargo : ∀ name ∈ stagedNames sequence,
      world.Spares 4 (options.stagedAt world.directory name))
    (hok : stage options world = (.ok index, last)) :
    index = ⟨1, options.runId, world.now.stamp, options.profile,
        stagedFiles.map fun k => k.entry (options.contentOf world k)⟩ ∧
      ∀ k ∈ stagedFiles,
        (options.treeAfterRun world k.runs).file? (options.builtAt world.directory k.built) =
            some (options.contentOf world k) ∧
          last.tree.file? (options.stagedAt world.directory k.staged) =
            some (options.contentOf world k) := by
  obtain ⟨-, mid, htaken, rfl, -, hothers⟩ := stage_ok hne hok
  have hlisted := htaken.index hne
  have hcontents := htaken.staged nodup_stagedNames_sequence hne hcargo
  rw [kept_sequence] at hlisted hcontents
  refine ⟨hlisted, fun k hk => ?_⟩
  obtain ⟨hbuilt, hstaged⟩ := hcontents k hk
  have hsame := hothers (options.stagedAt world.directory k.staged) fun hplace =>
    staged_ne_indexFile k hk (Options.stagedAt_inj hplace)
  exact ⟨hbuilt, (Tree.file?_of_node? hsame).trans hstaged⟩

/-! ### A small workspace -/

/-- A staging from `target` into `out` in the working directory. -/
def sampleOptions : Options where
  workspaceRoot := Utf8.encode "."
  targetDir := Utf8.encode "target"
  outDir := Utf8.encode "out"
  release := false
  runId := "run"

/-- A working directory without files, and a build program that follows a script. -/
def sampleWorld (script : List Behaviour) : World where
  tree := .bare [Utf8.encode "work"]
  directory := [Utf8.encode "work"]
  environment := .empty
  programs := [Utf8.encode "cargo"]
  script := script
  calls := []
  errors := ""
  now := ⟨1700000000, 1000000⟩

def sampleBuild (files : List (String × String)) (ending : Ending) : Behaviour where
  writes := files.map fun f => (Utf8.encode ("target/debug/" ++ f.1), Utf8.encode f.2)
  ending := ending

def sampleBuilds : List Behaviour :=
  [sampleBuild [("liblwtest_b.so", "b")] (.exited 0),
   sampleBuild [("host_dynamic_loadlibrary_fullpath", "full"), ("host_dynamic_loadlibrary_name", "name")]
     (.exited 0),
   sampleBuild [("liblwtest_a.so", "a")] (.exited 0),
   sampleBuild [("liblwtest_a.so", "a")] (.exited 0)]

end LoaderBench.Staging
