import LoaderBench.Proofs.Artifact.Reading
import LoaderBench.Proofs.FileTree.Agreement
import LoaderBench.Proofs.Staging.Whole

/-!
# What a staging comes to does not depend on leftovers

A staging that succeeds lists six files in a fixed order. Each has what the builds before its copy had
built, and the index is in its file. What was in the output directory before makes no difference: the
two runs of two worlds that differ only there are compared step by step, and their trees stay in
agreement outside.
-/

namespace LoaderBench.Staging

open LoaderBench.Artifact LoaderBench.FileTree LoaderBench.Platform LoaderBench.Text

variable {options : Options} {step : Step} {steps : List Step} {p q p' q' : Progress} {place : Place}
variable {world world' last last' : World} {index index' : Index} {places : Place → Prop}

/-! ### What a staging comes to -/

/-- What a staging that succeeds comes to. The contents that are listed were there right after the last
build before the copy, and the staged files have them. Each file is found in the index by its name, and
the index is read back from its own file. -/
structure Complete (options : Options) (world : World) (index : Index) (last : World) : Prop where
  lists : index = ⟨1, options.runId, world.now.stamp, options.profile,
    stagedFiles.map fun k => k.entry (options.contentOf world k)⟩
  built : ∀ k ∈ stagedFiles, (options.treeAfterRun world k.runs).file?
    (options.builtAt world.directory k.built) = some (options.contentOf world k)
  staged : ∀ k ∈ stagedFiles, last.tree.file? (options.stagedAt world.directory k.staged) =
    some (options.contentOf world k)
  found : ∀ k ∈ stagedFiles, index.find k.staged = some (k.entry (options.contentOf world k))
  written : last.tree.file? (options.stagedAt world.directory indexFile) =
    some (Utf8.encode (index.text ++ "\n"))
  decoded : ∃ text, Utf8.decode? (Utf8.encode (index.text ++ "\n")) = some text ∧
    Index.parse text = .ok index
  others : ∀ place, world.Spares 4 place →
    (∀ name ∈ indexFile :: stagedFiles.map Kept.staged,
      place ≠ options.stagedAt world.directory name) →
        last.tree.file? place = world.tree.file? place

theorem find_entry {files : List Kept} (hnodup : (files.map Kept.staged).Nodup)
    (content : Kept → Bytes) {k : Kept} (hk : k ∈ files) :
    (files.map fun k => k.entry (content k)).find? (·.name == k.staged) =
      some (k.entry (content k)) := by
  induction files with
  | nil => exact absurd hk List.not_mem_nil
  | cons first files ih =>
    rw [List.map_cons, List.nodup_cons] at hnodup
    rw [List.map_cons]
    rcases List.mem_cons.mp hk with rfl | hk
    · exact List.find?_cons_of_pos (beq_self_eq_true _)
    · have hne : first.staged ≠ k.staged := by
        intro hname
        rw [hname] at hnodup
        exact hnodup.1 (List.mem_map_of_mem hk)
      have hother : ((first.entry (content first)).name == k.staged) = false :=
        beq_eq_false_iff_ne.mpr hne
      simp only [List.find?_cons, hother]
      exact ih hnodup.2 hk

/-- A staging that succeeds is complete. -/
theorem complete_of_ok (hne : options.outPlace world.directory ≠ options.profilePlace world.directory)
    (hcargo : world.KeepsOut (options.outPlace world.directory))
    (hok : stage options world = (.ok index, last)) : Complete options world index last := by
  obtain ⟨hlisted, hcontents⟩ := contents_of_ok hne
    (fun name _ => hcargo.spares (Options.below_stagedAt options world.directory name) 4) hok
  obtain ⟨-, mid, htaken, -, hwritten, hothers⟩ := stage_ok hne hok
  refine ⟨hlisted, fun k hk => (hcontents k hk).1, fun k hk => (hcontents k hk).2, fun k hk => ?_,
    hwritten, ⟨_, Utf8.decode?_encode _, Index.parse_text _⟩, fun place hspares hplace => ?_⟩
  · rw [hlisted]
    exact find_entry (by decide) _ hk
  · have hsame := hothers place (hplace indexFile List.mem_cons_self)
    have htouched : mid.world.tree.file? place = (options.begun world).world.tree.file? place := by
      refine htaken.file? hspares fun name hname => ?_
      rw [stagedNames_sequence] at hname
      exact hplace name (List.mem_cons_of_mem _ hname)
    exact (Tree.file?_of_node? hsame).trans (htouched.trans (file?_begun options world place))

/-! ### Two stagings side by side -/

/-- Two stagings under way that look the same, as far as some places show. -/
structure Alike (places : Place → Prop) (p p' : Progress) : Prop where
  directory : p'.world.directory = p.world.directory
  script : p'.world.script = p.world.script
  trees : Tree.Agree places p.world.tree p'.world.tree

/-- Whether the ways along which runs of programs write go through some places only. -/
def World.WritesAlong (world : World) (places : Place → Prop) : Prop :=
  ∀ b ∈ world.script, ∀ w ∈ b.writes, ∀ x ∈ Path.trail world.directory w.1, places x

theorem World.WritesAlong.later (h : world.WritesAlong places) (hlater : Later world last) :
    last.WritesAlong places := by
  intro b hb w hw
  rw [hlater.directory]
  exact h b (hlater.script.mem hb) w hw

theorem agree_written {tree other : Tree} {directory : Place} {writes : List (Path × Bytes)}
    (h : Tree.Agree places tree other)
    (hwrites : ∀ w ∈ writes, ∀ x ∈ Path.trail directory w.1, places x) :
    Tree.Agree places (World.written tree directory writes)
      (World.written other directory writes) := by
  induction writes generalizing tree other with
  | nil => exact h
  | cons w writes ih =>
    exact ih (h.plant (hwrites w List.mem_cons_self) w.2) fun v hv =>
      hwrites v (List.mem_cons_of_mem _ hv)

theorem Alike.ran (h : Alike places p p') (hcargo : p.world.WritesAlong places)
    (command command' : Command) (index index' : Index) :
    Alike places ⟨command.ran p.world, index⟩ ⟨command'.ran p'.world, index'⟩ := by
  refine ⟨h.directory, congrArg List.tail h.script, ?_⟩
  show Tree.Agree places
    (World.written p.world.tree p.world.directory (p.world.script.headD .idle).writes)
    (World.written p'.world.tree p'.world.directory (p'.world.script.headD .idle).writes)
  rw [h.directory, h.script]
  refine agree_written h.trees fun w hw => ?_
  obtain ⟨b, rest, hscript, hwrites⟩ := next_of_mem_writes hw
  refine hcargo b ?_ w hwrites
  rw [hscript]
  exact List.mem_cons_self

/-- The same steps have the same contents built for them, and the trees stay in agreement. -/
theorem Taken.alike (h : Taken options steps p q) (h' : Taken options steps p' q')
    (halike : Alike places p p') (hcargo : p.world.WritesAlong places)
    (hbuilt : ∀ name, places (options.builtAt p.world.directory name))
    (hne : options.outPlace p.world.directory ≠ options.profilePlace p.world.directory) :
    (∀ k ∈ kept steps, builtFor options steps p k = builtFor options steps p' k) ∧
      Alike places q q' := by
  induction h generalizing p' with
  | none =>
    cases h'
    exact ⟨fun k hk => absurd hk List.not_mem_nil, halike⟩
  | @next step steps p mid q htake hstep _ ih =>
    have hlater := hstep.later
    have hmid := hcargo.later hlater
    rw [hlater.directory] at ih
    cases h' with
    | @next _ _ _ mid' _ htake' hstep' hrest' =>
      have hlater' := hstep'.later
      -- Both stretches take the same step, so only cases of one kind meet.
      cases hstep with
      | build hrefusal hend =>
        cases hstep' with
        | build hrefusal' hend' =>
          obtain ⟨hsame, hlast⟩ := ih hrest' (halike.ran hcargo _ _ _ _) hmid hbuilt hne
          refine ⟨fun k hk => ?_, hlast⟩
          obtain ⟨k, hmem, rfl⟩ := List.mem_map.mp hk
          rw [builtFor_build htake (.build hrefusal hend),
            builtFor_build htake' (.build hrefusal' hend')]
          exact hsame k hmem
      | @keep built staged kind variant _ tree content hread hwritten hother =>
        cases hstep' with
        | @keep _ _ _ _ _ tree' content' hread' hwritten' hother' =>
          rw [halike.directory] at hread' hwritten' hother'
          have hcontent : content = content' := by
            have hagree := halike.trees.file? (hbuilt built)
            rw [hread, hread'] at hagree
            exact Option.some.inj hagree
          -- Whatever was at the place of the copy, both trees now have the content there.
          have htrees : Tree.Agree places tree tree' := by
            intro place hplace
            by_cases hstaged : place = options.stagedAt p.world.directory staged
            · rw [hstaged, Tree.node?_of_file? hwritten, Tree.node?_of_file? hwritten', hcontent]
            · rw [hother place hstaged, hother' place hstaged]
              exact halike.trees place hplace
          have hne' : options.outPlace p'.world.directory ≠ options.profilePlace p'.world.directory := by
            rwa [halike.directory]
          obtain ⟨hsame, hlast⟩ := ih hrest' ⟨halike.directory, halike.script, htrees⟩ hmid hbuilt hne
          refine ⟨fun k hk => ?_, hlast⟩
          rcases List.mem_cons.mp hk with rfl | hk
          · rw [← halike.directory] at hread'
            rw [builtFor_first hread, builtFor_first hread', hcontent]
          · rw [builtFor_keep htake hother hlater.directory hne,
              builtFor_keep htake' (by rwa [halike.directory]) hlater'.directory hne']
            exact hsame k hk

/-! ### Two worlds -/

/-- Places that are not below the output directory. What is below it as a result of builds counts in,
and so do the directories above the working directory. -/
def Options.Outside (options : Options) (directory place : Place) : Prop :=
  ¬ Below (options.outPlace directory) place ∨ options.profilePlace directory <+: place ∨
    place <+: directory

instance (options : Options) (directory place : Place) : Decidable (options.Outside directory place) :=
  inferInstanceAs (Decidable (¬ Below (options.outPlace directory) place ∨
    options.profilePlace directory <+: place ∨ place <+: directory))

/-- Two worlds that differ in nothing but what is below the output directory, and in which of the
directories on the way to it are there. -/
structure DifferBelow (options : Options) (world world' : World) : Prop where
  directory : world'.directory = world.directory
  environment : world'.environment = world.environment
  programs : world'.programs = world.programs
  script : world'.script = world.script
  now : world'.now = world.now
  files : ∀ place, options.Outside world.directory place →
    (place ∈ Path.trail world.directory options.outDir → place = world.directory) →
      world.tree.node? place = world'.tree.node? place

theorem node?_begun_off_trail (options : Options) (world : World)
    (h : place ∉ Path.trail world.directory options.outDir) :
    (options.begun world).world.tree.node? place = world.tree.node? place := by
  rcases Tree.grows_makeChain world.tree world.directory (Path.ancestors options.outDir) place with
    hsame | ⟨-, -, a, ha, rfl⟩
  · exact hsame
  · exact absurd (Path.trail_of_mem_ancestors ha _ (Path.placeFrom_mem_trail _ _)) h

theorem node?_begun_on_trail (hnames : Path.components options.outDir ≠ [])
    (hmake : world.tree.makeDirectories world.directory options.outDir =
      (.ok (), (options.begun world).world.tree))
    (h : place ∈ Path.trail world.directory options.outDir) :
    (options.begun world).world.tree.node? place = some .directory := by
  rw [Tree.makeDirectories, Path.ancestors, if_neg hnames] at hmake
  exact Tree.trail_of_makeChain hmake h

/-- Once the output directory is there, the worlds look the same outside. -/
theorem DifferBelow.alike_begun (h : DifferBelow options world world')
    (hmake : world.tree.makeDirectories world.directory options.outDir =
      (.ok (), (options.begun world).world.tree))
    (hmake' : world'.tree.makeDirectories world'.directory options.outDir =
      (.ok (), (options.begun world').world.tree)) :
    Alike (options.Outside world.directory) (options.begun world) (options.begun world') := by
  refine ⟨h.directory, h.script, fun place hplace => ?_⟩
  have htrails : Path.trail world'.directory options.outDir =
      Path.trail world.directory options.outDir := by rw [h.directory]
  -- On the way to the output directory there are directories now, and off it nothing has changed.
  by_cases htrail : place ∈ Path.trail world.directory options.outDir
  · by_cases hnames : Path.components options.outDir = []
    · have hnone : Path.ancestors options.outDir = [] := if_pos hnames
      have htree (w : World) : (options.begun w).world.tree = w.tree := by
        rw [Options.begun, Tree.makeDirectories, hnone]
        rfl
      rw [htree, htree]
      have horigin := Path.mem_trail_of_no_components hnames htrail
      rw [Tree.origin] at horigin
      split at horigin
      · rw [horigin]
        rfl
      · exact h.files place hplace fun _ => horigin
    · rw [node?_begun_on_trail hnames hmake htrail,
        node?_begun_on_trail hnames hmake' (htrails ▸ htrail)]
  · rw [node?_begun_off_trail options world htrail,
      node?_begun_off_trail options world' (htrails ▸ htrail)]
    exact h.files place hplace fun hmem => absurd hmem htrail

theorem outside_builtAt (options : Options) (directory : Place) (name : String) :
    options.Outside directory (options.builtAt directory name) :=
  .inr (.inl (List.prefix_append _ _))

/-- A staging that succeeds comes to the index and the files that the builds alone decide on. Another
that succeeds, in a world that differs only below the output directory, comes to the same index and to
the same files, as long as the builds write along ways outside. -/
theorem stage_ignores_leftovers (options : Options) (world : World)
    (hne : options.outPlace world.directory ≠ options.profilePlace world.directory)
    (hcargo : world.KeepsOut (options.outPlace world.directory))
    (hok : stage options world = (.ok index, last)) :
    Complete options world index last ∧
      ∀ world' index' last', DifferBelow options world world' →
        world.WritesAlong (options.Outside world.directory) →
        stage options world' = (.ok index', last') →
          index' = index ∧ ∀ place, options.Outside world.directory place ∨
            (∃ name ∈ indexFile :: stagedFiles.map Kept.staged,
              place = options.stagedAt world.directory name) →
                last'.tree.file? place = last.tree.file? place := by
  have hcomplete := complete_of_ok hne hcargo hok
  refine ⟨hcomplete, fun world' index' last' hdiffer hways hok' => ?_⟩
  have hne' : options.outPlace world'.directory ≠ options.profilePlace world'.directory := by
    rwa [hdiffer.directory]
  have hcargo' : world'.KeepsOut (options.outPlace world'.directory) := by
    intro b hb
    rw [hdiffer.script] at hb
    rw [hdiffer.directory]
    exact hcargo b hb
  have hcomplete' := complete_of_ok hne' hcargo' hok'
  obtain ⟨hmake, mid, htaken, -, -, hothers⟩ := stage_ok hne hok
  obtain ⟨hmake', mid', htaken', -, -, hothers'⟩ := stage_ok hne' hok'
  obtain ⟨hsame, halike⟩ := htaken.alike htaken' (hdiffer.alike_begun hmake hmake') hways
    (outside_builtAt options world.directory) hne
  rw [kept_sequence] at hsame
  have hindex : index' = index := by
    have hentries : (stagedFiles.map fun k => k.entry (options.contentOf world' k)) =
        stagedFiles.map fun k => k.entry (options.contentOf world k) :=
      List.map_congr_left fun k hk => congrArg k.entry (hsame k hk).symm
    rw [hcomplete'.lists, hcomplete.lists, hdiffer.now, hentries]
  have hnamed (name : String) (hname : name ∈ indexFile :: stagedFiles.map Kept.staged) :
      last'.tree.file? (options.stagedAt world.directory name) =
        last.tree.file? (options.stagedAt world.directory name) := by
    have hwritten' := hcomplete'.written
    have hstaged' := hcomplete'.staged
    rw [hdiffer.directory] at hwritten' hstaged'
    rcases List.mem_cons.mp hname with rfl | hname
    · rw [hwritten', hcomplete.written, hindex]
    · obtain ⟨k, hk, rfl⟩ := List.mem_map.mp hname
      rw [hstaged' k hk, hcomplete.staged k hk]
      exact congrArg some (hsame k hk).symm
  refine ⟨hindex, fun place hplace => ?_⟩
  rcases hplace with hplace | ⟨name, hname, rfl⟩
  · by_cases hlisted : place = options.stagedAt world.directory indexFile
    · rw [hlisted]
      exact hnamed indexFile List.mem_cons_self
    · have hlast := Tree.file?_of_node? (hothers place hlisted)
      have hlast' := Tree.file?_of_node? (hothers' place (by rwa [hdiffer.directory]))
      rw [hlast, hlast', halike.trees.file? hplace]
  · exact hnamed name hname

/-- The small workspace with an older library in the output directory. -/
def leftoverWorld : World :=
  { sampleWorld sampleBuilds with
    tree := ((sampleWorld sampleBuilds).tree.set [Utf8.encode "work", Utf8.encode "out"] .directory).set
      [Utf8.encode "work", Utf8.encode "out", Utf8.encode "liblwtest_b.so"]
      (.file (Utf8.encode "an older library")) }

theorem differBelow_leftoverWorld :
    DifferBelow sampleOptions (sampleWorld sampleBuilds) leftoverWorld := by
  refine ⟨rfl, rfl, rfl, rfl, rfl, fun place hplace htrail => ?_⟩
  have hout : place ≠ [Utf8.encode "work", Utf8.encode "out"] := by
    rintro rfl
    exact absurd (htrail (by decide)) (by decide)
  have hlibrary : place ≠ [Utf8.encode "work", Utf8.encode "out", Utf8.encode "liblwtest_b.so"] := by
    rintro rfl
    exact absurd hplace (by decide)
  show _ = Tree.node? (((sampleWorld sampleBuilds).tree.set _ _).set _ _) place
  rw [Tree.node?_set_other _ _ hlibrary, Tree.node?_set_other _ _ hout]

/-- The older library makes no difference to a staging of the small workspace. -/
theorem sample_stage_ignores_leftovers :
    ∃ index last last', stage sampleOptions (sampleWorld sampleBuilds) = (.ok index, last) ∧
      stage sampleOptions leftoverWorld = (.ok index, last') ∧
      Complete sampleOptions (sampleWorld sampleBuilds) index last ∧
      last'.tree.file? (sampleOptions.stagedAt leftoverWorld.directory "liblwtest_b.so") =
        last.tree.file? (sampleOptions.stagedAt leftoverWorld.directory "liblwtest_b.so") := by
  have hsuccess : (stage sampleOptions (sampleWorld sampleBuilds)).1.isOk = true := by
    decide +kernel
  have hsuccess' : (stage sampleOptions leftoverWorld).1.isOk = true := by
    decide +kernel
  have hways : (sampleWorld sampleBuilds).WritesAlong
      (sampleOptions.Outside (sampleWorld sampleBuilds).directory) := by
    unfold World.WritesAlong
    decide +kernel
  cases hstage : stage sampleOptions (sampleWorld sampleBuilds) with
  | mk result last =>
    cases hstage' : stage sampleOptions leftoverWorld with
    | mk result' last' =>
      rw [hstage] at hsuccess
      rw [hstage'] at hsuccess'
      cases result with
      | error e => cases hsuccess
      | ok index =>
        cases result' with
        | error e => cases hsuccess'
        | ok index' =>
          obtain ⟨hcomplete, hignores⟩ := stage_ignores_leftovers sampleOptions
            (sampleWorld sampleBuilds) (by decide) (by decide) hstage
          obtain ⟨rfl, hfiles⟩ := hignores leftoverWorld index' last' differBelow_leftoverWorld hways
            hstage'
          exact ⟨_, last, last', rfl, rfl, hcomplete, hfiles _ (.inr ⟨_, by decide, rfl⟩)⟩

end LoaderBench.Staging
