import LoaderBench.Proofs.Staging.Whole

/-!
# A staging stops at its first failure

Whatever step fails, the staging ends there with that step's failure. It has made the runs up to the
failure, has replaced the staged files of the steps before it, and has left every other file below
the output directory as it was, the index included. The index is written when all steps are done.
-/

namespace LoaderBench.Staging

open LoaderBench.Artifact LoaderBench.FileTree LoaderBench.Platform LoaderBench.Text

variable {options : Options} {step : Step} {p : Progress} {place : Place}

/-! ### What a failing step leaves -/

/-- Whether a failure is that of a run that was made. -/
def Failure.followsRun : Failure → Bool
  | .commandFailed _ _ => true
  | _ => false

/-- The runs that a failing step has made. -/
def Options.lastCall (options : Options) (world : World) (step : Step) (e : Failure) : List Call :=
  if e.followsRun then (options.callOf world step).toList else []

theorem Fails.calls {e : Failure} {last : World} (h : Fails options step p e last) :
    last.calls = p.world.calls ++ options.lastCall p.world step e := by
  cases h with
  | spawn => exact (List.append_nil _).symm
  | command => exact congrArg (fun call => p.world.calls ++ [call]) (call_buildCommand _ _ _ _)
  | missing => exact (List.append_nil _).symm
  | copy => exact (List.append_nil _).symm

theorem Fails.errors {e : Failure} {last : World} (h : Fails options step p e last) :
    last.errors = p.world.errors ++ options.shownOf p.world step := by
  cases h with
  | spawn => exact String.append_assoc ..
  | command => exact String.append_assoc ..
  | missing => exact String.append_empty.symm
  | copy => exact String.append_empty.symm

theorem Fails.file? {e : Failure} {last : World} (h : Fails options step p e last)
    (hcargo : p.world.Spares 1 place) : last.tree.file? place = p.world.tree.file? place := by
  cases h with
  | spawn => rfl
  | command => exact World.Spares.file?_ran hcargo _
  | missing => rfl
  | copy => rfl

/-! ### What a staging leaves -/

/-- What lies below the output directory when some steps have been taken and nothing more was done
there: the copies of these steps have what was built for them, and all other files are as they were. -/
structure Leaves (options : Options) (world : World) (done : List Step) (last : World) : Prop where
  replaced : ∀ k ∈ kept done, ∃ content,
    (treeAfter options k.runs done (options.begun world)).file?
        (options.builtAt world.directory k.built) = some content ∧
      last.tree.file? (options.stagedAt world.directory k.staged) = some content
  untouched : ∀ place, Below (options.outPlace world.directory) place →
    (∀ name ∈ stagedNames done, place ≠ options.stagedAt world.directory name) →
      last.tree.file? place = world.tree.file? place
  index : last.tree.file? (options.stagedAt world.directory indexFile) =
    world.tree.file? (options.stagedAt world.directory indexFile)

theorem Taken.leaves {world last : World} {done rest : List Step} {mid : Progress}
    (h : Taken options done (options.begun world) mid) (hsplit : sequence = done ++ rest)
    (hne : options.outPlace world.directory ≠ options.profilePlace world.directory)
    (hcargo : world.KeepsOut (options.outPlace world.directory))
    (hlast : ∀ place, Below (options.outPlace world.directory) place →
      last.tree.file? place = mid.world.tree.file? place) :
    Leaves options world done last := by
  have hnames : stagedNames sequence = stagedNames done ++ stagedNames rest := by
    rw [hsplit, stagedNames_append]
  have hnodup : (stagedNames done).Nodup := by
    have hall := nodup_stagedNames_sequence
    rw [hnames] at hall
    exact (List.nodup_append.mp hall).1
  have hspares (place : Place) (hbelow : Below (options.outPlace world.directory) place) :
      (options.begun world).world.Spares (builds done) place := by
    have hbegun : (options.begun world).world.KeepsOut (options.outPlace world.directory) := hcargo
    exact hbegun.spares hbelow _
  have huntouched (place : Place) (hbelow : Below (options.outPlace world.directory) place)
      (hplace : ∀ name ∈ stagedNames done, place ≠ options.stagedAt world.directory name) :
      last.tree.file? place = world.tree.file? place := by
    have hsame := h.file? (hspares place hbelow) hplace
    exact (hlast place hbelow).trans (hsame.trans (file?_begun options world place))
  refine ⟨fun k hk => ?_, huntouched, ?_⟩
  · obtain ⟨hbuilt, hstaged⟩ := h.staged hnodup hne
      (fun name _ => hspares _ (Options.below_stagedAt options world.directory name)) k hk
    exact ⟨_, hbuilt, (hlast _ (Options.below_stagedAt _ _ _)).trans hstaged⟩
  · -- No copy is named like the index, whose file is thus one of the others.
    refine huntouched _ (Options.below_stagedAt _ _ _) fun name hname hplace =>
      indexFile_not_mem_sequence ?_
    rw [Options.stagedAt_inj hplace, hnames]
    exact List.mem_append_left _ hname

/-! ### How a staging comes out -/

/-- How a staging comes out, and in which world. The steps before the one that fails have all been
taken, so it is the first that fails. -/
inductive Outcome (options : Options) (world : World) : Except Failure Index × World → Prop where
  | noDirectory {e : IoError} {tree : Tree}
      (make : world.tree.makeDirectories world.directory options.outDir = (.error e, tree))
      (files : ∀ place, tree.file? place = world.tree.file? place) :
      Outcome options world
        (.error (.io ("failed to create " ++ Utf8.lossy options.outDir) e), { world with tree := tree })
  | stopped {done rest : List Step} {step : Step} {mid : Progress} {e : Failure} {last : World}
      (make : world.tree.makeDirectories world.directory options.outDir =
        (.ok (), (options.begun world).world.tree))
      (split : sequence = done ++ step :: rest)
      (taken : Taken options done (options.begun world) mid)
      (fails : Fails options step mid e last)
      (calls : last.calls = world.calls ++ done.filterMap (options.callOf world) ++
        options.lastCall world step e)
      (shown : last.errors = world.errors ++ String.join (done.map (options.shownOf world)) ++
        options.shownOf world step)
      (leaves : Leaves options world done last) :
      Outcome options world (.error e, last)
  | noIndex {mid : Progress} {e : IoError}
      (make : world.tree.makeDirectories world.directory options.outDir =
        (.ok (), (options.begun world).world.tree))
      (taken : Taken options sequence (options.begun world) mid)
      (fails : mid.world.tree.write world.directory (indexPath options.outDir)
        (Utf8.encode (mid.index.text ++ "\n")) = .error e)
      (calls : mid.world.calls = world.calls ++ sequence.filterMap (options.callOf world))
      (shown : mid.world.errors = world.errors ++ String.join (sequence.map (options.shownOf world)))
      (leaves : Leaves options world sequence mid.world) :
      Outcome options world
        (.error (.io ("failed to write " ++ Utf8.lossy (indexPath options.outDir)) e), mid.world)
  | complete {mid : Progress} {tree : Tree}
      (make : world.tree.makeDirectories world.directory options.outDir =
        (.ok (), (options.begun world).world.tree))
      (taken : Taken options sequence (options.begun world) mid)
      (calls : mid.world.calls = world.calls ++ sequence.filterMap (options.callOf world))
      (shown : mid.world.errors = world.errors ++ String.join (sequence.map (options.shownOf world)))
      (leaves : Leaves options world sequence mid.world)
      (index : tree.file? (options.stagedAt world.directory indexFile) =
        some (Utf8.encode (mid.index.text ++ "\n")))
      (others : ∀ place, place ≠ options.stagedAt world.directory indexFile →
        tree.node? place = mid.world.tree.node? place) :
      Outcome options world (.ok mid.index, { mid.world with tree := tree })

/-- A staging ends with the first failure and with nothing done beyond it, as long as its output
directory is not the one in which builds leave their results and the builds write nothing below it. -/
theorem stage_stops_at_first_failure (options : Options) (world : World)
    (hne : options.outPlace world.directory ≠ options.profilePlace world.directory)
    (hcargo : world.KeepsOut (options.outPlace world.directory)) :
    Outcome options world (stage options world) := by
  rcases stage_cases options world hne with ⟨e, tree, hmake, hstage⟩ | ⟨hmake, hsteps⟩
  · rw [hstage]
    refine .noDirectory hmake fun place => ?_
    have hgrows := Tree.grows_makeChain world.tree world.directory (Path.ancestors options.outDir)
    have htree : (world.tree.makeChain world.directory (Path.ancestors options.outDir)).2 = tree :=
      congrArg Prod.snd hmake
    rw [htree] at hgrows
    exact hgrows.file? place
  · rcases hsteps with
      ⟨done, step, rest, mid, e, last, hsplit, htaken, hfails, hstage⟩ | ⟨mid, htaken, hindex⟩
    · rw [hstage]
      have hlater := htaken.later
      refine .stopped hmake hsplit htaken hfails ?_ ?_ ?_
      · have hcalls := hfails.calls
        rw [htaken.calls, Options.lastCall, hlater.callOf] at hcalls
        exact hcalls
      · have hshown := hfails.errors
        rw [htaken.errors, hlater.shownOf] at hshown
        exact hshown
      · have hbegun : (options.begun world).world.KeepsOut (options.outPlace world.directory) := hcargo
        have hlast := hbegun.later hlater
        exact htaken.leaves hsplit hne hcargo fun place hbelow =>
          hfails.file? (hlast.spares hbelow 1)
    · have hleaves : Leaves options world sequence mid.world :=
        htaken.leaves (List.append_nil sequence).symm hne hcargo fun _ _ => rfl
      have hdirectory : mid.world.directory = world.directory := htaken.later.directory
      rw [hdirectory] at hindex
      rcases hindex with ⟨e, hwrite, hstage⟩ | ⟨tree, hwrite, hstage⟩
      · rw [hstage]
        exact .noIndex hmake htaken hwrite htaken.calls htaken.errors hleaves
      · rw [hstage]
        obtain ⟨rfl, hfits⟩ := Tree.write_ok hwrite
        rw [placeFrom_indexPath] at hfits ⊢
        exact .complete hmake htaken htaken.calls htaken.errors hleaves
          (Tree.file?_set_self hfits) fun place hplace => Tree.node?_set_other _ _ hplace

/-- The second build of the library is killed when the copies for the first variant are made. -/
theorem killed_stage_stops :
    let world := sampleWorld (sampleBuilds.take 3 ++ [sampleBuild [("liblwtest_a.so", "a")] .killed])
    Outcome sampleOptions world (stage sampleOptions world) :=
  stage_stops_at_first_failure _ _ (by decide) (by decide)

end LoaderBench.Staging
