import LoaderBench.Proofs.Staging.Whole

/-!
# What is staged is what was built

An index that a staging returns tells the truth about the files beside it, and these are the files that
were built, which staging leaves alone. This takes that the output directory is not the one in which
builds leave their results: there a file would be copied onto itself, and so be lost, and what was
staged for the first variant would be built over for the second.
-/

namespace LoaderBench.Staging

open LoaderBench.Artifact LoaderBench.FileTree LoaderBench.Platform LoaderBench.Text

variable {options : Options} {world last : World} {index : Index} {place : Place}

/-- Whether a place holds the output of a build: a file that is to be staged, or one that a run
writes. -/
def Options.IsOutput (options : Options) (world : World) (place : Place) : Prop :=
  (∃ k ∈ stagedFiles, place = options.builtAt world.directory k.built) ∨
    ∃ b ∈ world.script, ∃ w ∈ b.writes, place = Path.placeFrom world.directory w.1

/-- What is right about a staging when it returns an index: each entry is that of the content of the
staged file, which is what the builds up to the one that it follows had built, and at every time the
outputs of builds are as the builds up to then left them. -/
structure Intact (options : Options) (world : World) (index : Index) (last : World) : Prop where
  entries : ∀ e ∈ index.artifacts, ∃ k ∈ stagedFiles, ∃ content, e = k.entry content ∧
    last.tree.file? (options.stagedAt world.directory e.name) = some content ∧
      (options.treeAfterRun world k.runs).file? (options.builtAt world.directory k.built) =
        some content
  created : ∀ place, options.IsOutput world place →
    (options.begun world).world.tree.file? place = world.tree.file? place
  copied : ∀ place, options.IsOutput world place → ∀ done rest mid, sequence = done ++ rest →
    takeAll options done (options.begun world) = (.ok (), mid) →
      mid.world.tree.file? place =
        (treeAfter options (builds done) done (options.begun world)).file? place
  listed : ∀ place, options.IsOutput world place →
    last.tree.file? place = (options.treeAfterRun world 4).file? place

/-- Whether runs of programs keep off the files that are staged, and off their index. -/
def Options.Undisturbed (options : Options) (world : World) : Prop :=
  ∀ name ∈ indexFile :: stagedNames sequence, ∀ b ∈ world.script, ∀ w ∈ b.writes,
    Path.placeFrom world.directory w.1 ≠ options.stagedAt world.directory name

instance (options : Options) (world : World) : Decidable (options.Undisturbed world) :=
  inferInstanceAs (Decidable (∀ name ∈ indexFile :: stagedNames sequence, ∀ b ∈ world.script,
    ∀ w ∈ b.writes, Path.placeFrom world.directory w.1 ≠ options.stagedAt world.directory name))

theorem Options.Undisturbed.spares (h : options.Undisturbed world) {name : String}
    (hname : name ∈ indexFile :: stagedNames sequence) (runs : Nat) :
    world.Spares runs (options.stagedAt world.directory name) :=
  fun b hb => h name hname b (List.mem_of_mem_take hb)

theorem Options.IsOutput.apart (h : options.IsOutput world place)
    (hne : options.outPlace world.directory ≠ options.profilePlace world.directory)
    (hcargo : options.Undisturbed world) {name : String}
    (hname : name ∈ indexFile :: stagedNames sequence) :
    place ≠ options.stagedAt world.directory name := by
  rcases h with ⟨k, -, rfl⟩ | ⟨b, hb, w, hw, rfl⟩
  · exact Options.builtAt_ne_stagedAt k.built name hne
  · exact hcargo name hname b hb w hw

/-- Staging is sound into every directory but the one in which builds leave their results, if runs of
the build program keep off the staged files. -/
theorem stage_intact (options : Options) (world : World)
    (hne : options.outPlace world.directory ≠ options.profilePlace world.directory)
    (hcargo : options.Undisturbed world) (hok : stage options world = (.ok index, last)) :
    Intact options world index last := by
  obtain ⟨hindex, hcontents⟩ := contents_of_ok hne
    (fun name hname => hcargo.spares (List.mem_cons_of_mem _ hname) 4) hok
  obtain ⟨-, mid, htaken, -, -, hothers⟩ := stage_ok hne hok
  refine ⟨fun e he => ?_, fun place hplace => file?_begun options world place, ?_, ?_⟩
  · rw [hindex] at he
    obtain ⟨k, hk, rfl⟩ := List.mem_map.mp he
    obtain ⟨hbuilt, hstaged⟩ := hcontents k hk
    exact ⟨k, hk, _, rfl, hstaged, hbuilt⟩
  · intro place hplace done rest mid hsplit htake
    have hplain : ∀ step ∈ done, step.Plain := by
      intro step hstep
      refine plain_of_mem_sequence step ?_
      rw [hsplit]
      exact List.mem_append_left _ hstep
    rcases takeAll_cases hplain (options.begun world) hne with
      ⟨mid', htake', htaken'⟩ | ⟨_, _, _, _, _, _, -, -, -, htake'⟩
    · rw [htake] at htake'
      cases htake'
      refine htaken'.file?_treeAfter fun name hname => hplace.apart hne hcargo ?_
      rw [hsplit, stagedNames_append]
      exact List.mem_cons_of_mem _ (List.mem_append_left _ hname)
    · rw [htake] at htake'
      cases htake'
  · intro place hplace
    have hsame := hothers place (hplace.apart hne hcargo List.mem_cons_self)
    refine (Tree.file?_of_node? hsame).trans ?_
    exact htaken.file?_treeAfter fun name hname =>
      hplace.apart hne hcargo (List.mem_cons_of_mem _ hname)

theorem sample_stage_intact :
    ∃ index, (stage sampleOptions (sampleWorld sampleBuilds)).1 = .ok index ∧
      Intact sampleOptions (sampleWorld sampleBuilds) index
        (stage sampleOptions (sampleWorld sampleBuilds)).2 := by
  have hsuccess : (stage sampleOptions (sampleWorld sampleBuilds)).1.isOk = true := by
    decide +kernel
  cases hstage : stage sampleOptions (sampleWorld sampleBuilds) with
  | mk result last =>
    rw [hstage] at hsuccess
    cases result with
    | error e => cases hsuccess
    | ok index =>
      exact ⟨index, rfl, stage_intact sampleOptions (sampleWorld sampleBuilds) (by decide)
        (by decide +kernel) hstage⟩

/-- Staging into the directory where builds leave their results. -/
def profileOptions : Options := { sampleOptions with outDir := Utf8.encode "target/debug" }

/-- A staging into the directory where builds leave their results succeeds, though the runs write
nothing but below it, and loses what was built. -/
theorem profile_stage_not_intact :
    (∀ b ∈ sampleBuilds, ∀ w ∈ b.writes,
      Below (profileOptions.profilePlace (sampleWorld sampleBuilds).directory)
        (Path.placeFrom (sampleWorld sampleBuilds).directory w.1)) ∧
    ∃ index, (stage profileOptions (sampleWorld sampleBuilds)).1 = .ok index ∧
      ¬ Intact profileOptions (sampleWorld sampleBuilds) index
        (stage profileOptions (sampleWorld sampleBuilds)).2 := by
  refine ⟨by decide, ?_⟩
  -- The second library is built as one byte, and is listed as an empty file.
  have hentry : ((stage profileOptions (sampleWorld sampleBuilds)).1.toOption.bind
      (·.find "liblwtest_b.so")).map Artifact.Entry.sizeBytes = some 0 := by
    decide +kernel
  have hbuilt : ∀ k ∈ stagedFiles, k.staged = "liblwtest_b.so" →
      (profileOptions.treeAfterRun (sampleWorld sampleBuilds) k.runs).file?
        (profileOptions.builtAt (sampleWorld sampleBuilds).directory k.built) =
          some (Utf8.encode "b") := by
    decide +kernel
  cases hok : (stage profileOptions (sampleWorld sampleBuilds)).1 with
  | error e =>
    rw [hok] at hentry
    cases hentry
  | ok index =>
    refine ⟨index, rfl, fun hintact => ?_⟩
    rw [hok] at hentry
    obtain ⟨e, hfind, hsize⟩ := Option.map_eq_some_iff.mp hentry
    have hlisted : index.artifacts.find? (·.name == "liblwtest_b.so") = some e := hfind
    have hmem : e ∈ index.artifacts := List.mem_of_find?_eq_some hlisted
    have hname := List.find?_some hlisted
    obtain ⟨k, hk, content, rfl, -, hcontent⟩ := hintact.entries e hmem
    rw [hbuilt k hk (beq_iff_eq.mp hname)] at hcontent
    obtain rfl := Option.some.inj hcontent
    have hone : UInt64.ofNat (Utf8.encode "b").length ≠ 0 := by decide
    exact hone hsize

end LoaderBench.Staging
