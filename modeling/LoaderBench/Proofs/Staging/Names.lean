import LoaderBench.Proofs.Staging.FailStop
import LoaderBench.Proofs.Text.Ascii
import LoaderBench.Proofs.Text.Decimal

/-!
# Names of staged files

Every variant has a file name of its own, which is none of the names that do not depend on a variant. So
a plan for variants that are told apart puts each of its files under a name of its own, and what one
step has staged no later step overwrites, however that step comes out and whatever the output directory
is: a copy changes the place of its own name alone, and so does the writing of the index.
-/

namespace LoaderBench.Staging

open LoaderBench.Artifact LoaderBench.FileTree LoaderBench.Fixture LoaderBench.Text

variable {options : Options} {step : Step} {steps : List Step} {p q : Progress} {place : Place}
variable {variant : Int64} {variants : List Int64}

/-! ### Names of variants -/

theorem toList_variantFile (variant : Int64) : (libraryFile (variantStem variant)).toList =
    "liblwtest_a_v".toList ++ ((signed variant.toInt).toList ++ ['.', 's', 'o']) := by
  simp [libraryFile, variantStem, exporterStem]

/-- The digits of a variant end at the dot. -/
theorem variantFile_inj {v w : Int64}
    (h : libraryFile (variantStem v) = libraryFile (variantStem w)) : v = w := by
  have hlist := congrArg String.toList h
  rw [toList_variantFile, toList_variantFile] at hlist
  have hdot : ∀ c ∈ ['.', 's', 'o'].head?, c.isDigit = false := by
    intro c hc
    cases hc
    rfl
  obtain ⟨hsame, -⟩ := signed_append_inj hdot hdot (List.append_cancel_left hlist)
  exact Int64.toInt_inj.mp hsame

/-- The file names that do not depend on a variant. -/
def fixedFiles : List String :=
  [libraryFile exporterStem, libraryFile importedStem, executableFile pathHostStem,
   executableFile nameHostStem, indexFile]

theorem variantFile_not_mem (variant : Int64) : libraryFile (variantStem variant) ∉ fixedFiles := by
  have hfixed : ∀ name ∈ fixedFiles, ¬ "liblwtest_a_v".toList <+: name.toList := by decide
  intro hmem
  refine hfixed _ hmem ?_
  rw [toList_variantFile]
  exact List.prefix_append _ _

/-- A library file stands for itself in every path if its stem has no slash. -/
theorem plainName_libraryFile {stem : String} (h : '/' ∉ stem.toList) :
    PlainName (Utf8.encode (libraryFile stem)) := by
  have hfront : Utf8.encode "lib" = [108, 105, 98] := by decide
  have hbytes : ∃ rest, Utf8.encode (libraryFile stem) = 108 :: rest := by
    rw [libraryFile, Utf8.encode_append, Utf8.encode_append, hfront]
    exact ⟨_, rfl⟩
  obtain ⟨rest, hbytes⟩ := hbytes
  constructor
  case nonempty =>
    rw [hbytes]
    exact List.cons_ne_nil _ _
  case unparted =>
    intro hmem
    have hslash := (Utf8.mem_encode_iff (a := '/') (by decide) (by decide) _).mp hmem
    simp [libraryFile, h] at hslash
  case absolute =>
    rw [hbytes]
    rfl

theorem plainName_variantFile (variant : Int64) :
    PlainName (Utf8.encode (libraryFile (variantStem variant))) := by
  refine plainName_libraryFile fun hmem => ?_
  have hsigned : '/' ∉ (signed variant.toInt).toList := by
    intro h
    rcases sign_or_digit_of_mem_signed h with hsign | hdigit
    · exact absurd hsign (by decide)
    · exact absurd hdigit (by decide)
  simp [variantStem, exporterStem, hsigned] at hmem

/-! ### Plans -/

theorem plain_of_mem_variantSteps (h : step ∈ variantSteps variants variant) :
    step.Plain := by
  have hplain : PlainName (Utf8.encode (libraryFile exporterStem)) := by decide
  simp only [variantSteps, List.mem_append, List.mem_cons, List.not_mem_nil, or_false] at h
  rcases h with (rfl | rfl) | hfirst
  · trivial
  · exact ⟨hplain, plainName_variantFile variant⟩
  · split at hfirst
    · obtain rfl := List.mem_singleton.mp hfirst
      exact ⟨hplain, hplain⟩
    · exact absurd hfirst List.not_mem_nil

theorem plain_of_mem_planFor : ∀ step ∈ planFor variants, step.Plain := by
  intro step h
  have hbuilds : ∀ step ∈ [Step.build ["-p", "lwtest-b"] none,
      .build ["-p", "lwtest-host", "--bins"] none], step.Plain := by decide
  have hcopies : ∀ step ∈ [Step.keepPlain (libraryFile importedStem) .library none,
      .keepPlain (executableFile pathHostStem) .host none,
      .keepPlain (executableFile nameHostStem) .host none], step.Plain := by decide
  rcases List.mem_append.mp h with h | h
  · rcases List.mem_append.mp h with h | h
    · exact hbuilds step h
    · obtain ⟨variant, -, hstep⟩ := List.mem_flatMap.mp h
      exact plain_of_mem_variantSteps hstep
  · exact hcopies step h

theorem stagedNames_variantSteps (variants : List Int64) (variant : Int64) :
    stagedNames (variantSteps variants variant) =
      libraryFile (variantStem variant) ::
        if variants.head? = some variant then [libraryFile exporterStem] else [] := by
  unfold variantSteps
  split <;> rfl

/-- Variants other than the first are staged under their own names alone. -/
theorem stagedNames_later {first : Int64} {later : List Int64} (h : first ∉ later)
    (rest : List Int64) :
    stagedNames (later.flatMap (variantSteps (first :: rest))) =
      later.map fun v => libraryFile (variantStem v) := by
  induction later with
  | nil => rfl
  | cons v later ih =>
    obtain ⟨hv, hlater⟩ := List.ne_and_not_mem_of_not_mem_cons h
    have hfirst : (first :: rest).head? ≠ some v := fun hsome => hv (Option.some.inj hsome)
    rw [List.flatMap_cons, stagedNames_append, stagedNames_variantSteps, if_neg hfirst, ih hlater]
    rfl

theorem stagedNames_planFor {first : Int64} {later : List Int64} (h : first ∉ later) :
    stagedNames (planFor (first :: later)) =
      libraryFile (variantStem first) :: libraryFile exporterStem ::
        (later.map (fun v => libraryFile (variantStem v)) ++
          [libraryFile importedStem, executableFile pathHostStem, executableFile nameHostStem]) := by
  have hfirst : (first :: later).head? = some first := rfl
  rw [planFor, stagedNames_append, stagedNames_append, List.flatMap_cons, stagedNames_append,
    stagedNames_variantSteps, if_pos hfirst, stagedNames_later h]
  rfl

theorem nodup_planFor (h : variants.Nodup) :
    (indexFile :: stagedNames (planFor variants)).Nodup := by
  cases variants with
  | nil => decide
  | cons first later =>
    have hnames : (indexFile :: stagedNames (planFor (first :: later))).Perm
        (((first :: later).map fun v => libraryFile (variantStem v)) ++ fixedFiles) := by
      rw [stagedNames_planFor (List.nodup_cons.mp h).1]
      refine (List.perm_append_singleton indexFile _).symm.trans ?_
      rw [List.cons_append, List.cons_append, List.append_assoc, List.map_cons, List.cons_append]
      exact .cons _ List.perm_middle.symm
    rw [hnames.nodup_iff, List.nodup_append]
    refine ⟨List.Pairwise.map _ (fun v w hvw hsame => hvw (variantFile_inj hsame)) h, by decide, ?_⟩
    rintro name hname other hother rfl
    obtain ⟨v, -, rfl⟩ := List.mem_map.mp hname
    exact variantFile_not_mem v hother

/-! ### What steps leave alone -/

/-- A copy changes one place of the tree and nothing else in the world, however it comes out. -/
theorem take_keep_world (options : Options) (built : String) {staged : String}
    (hstaged : PlainName (Utf8.encode staged)) (kind : Kind) (variant : Option Int64) (p : Progress) :
    ∃ tree, (Step.take options (.keep built staged kind variant) p).2.world =
        { p.world with tree := tree } ∧
      ∀ place, place ≠ options.stagedAt p.world.directory staged →
        tree.node? place = p.world.tree.node? place := by
  rw [world_take_keep, ← Options.placeFrom_staged options p.world.directory hstaged]
  exact copyInto_world _ _ _ _

/-- A step leaves a file alone that it does not stage, if the run that it makes spares it. This holds of
a step that fails as well, and for every output directory. -/
theorem Step.file?_take (hplain : step.Plain) (hspares : p.world.Spares (builds [step]) place)
    (hplace : ∀ name ∈ stagedNames [step], place ≠ options.stagedAt p.world.directory name) :
    (step.take options p).2.world.tree.file? place = p.world.tree.file? place := by
  cases step with
  | build arguments variant =>
    rcases take_build options arguments variant p with ⟨q, htake, htakes⟩ | ⟨e, last, htake, hfails⟩
    · rw [htake]
      cases htakes with
      | build => exact World.Spares.file?_ran hspares _
    · rw [htake]
      exact hfails.file? hspares
  | keep built staged kind variant =>
    obtain ⟨tree, hworld, hother⟩ := take_keep_world options built hplain.2 kind variant p
    rw [hworld]
    exact Tree.file?_of_node? (hother place (hplace staged List.mem_cons_self))

/-- After a step the process is where it was, and runs that spare a file go on sparing it. -/
theorem Step.spares_take (hplain : step.Plain) (htake : step.take options p = (.ok (), q))
    (hspares : p.world.Spares (builds (step :: steps)) place) :
    q.world.directory = p.world.directory ∧ q.world.Spares (builds steps) place := by
  cases step with
  | build arguments variant =>
    rcases take_build options arguments variant p with ⟨q', htake', htakes⟩ | ⟨e, last, htake', -⟩
    · rw [htake] at htake'
      cases htake'
      cases htakes with
      | build => exact ⟨rfl, World.Spares.ran hspares _⟩
    · rw [htake] at htake'
      cases htake'
  | keep built staged kind variant =>
    obtain ⟨tree, hworld, -⟩ := take_keep_world options built hplain.2 kind variant p
    rw [htake] at hworld
    have hsame : q.world = { p.world with tree := tree } := hworld
    rw [hsame]
    exact ⟨rfl, hspares⟩

theorem file?_takeAll (hplain : ∀ step ∈ steps, step.Plain)
    (hspares : p.world.Spares (builds steps) place)
    (hplace : ∀ name ∈ stagedNames steps, place ≠ options.stagedAt p.world.directory name) :
    (takeAll options steps p).2.world.tree.file? place = p.world.tree.file? place := by
  induction steps generalizing p with
  | nil => rfl
  | cons step steps ih =>
    obtain ⟨hstep, hsteps⟩ := List.forall_mem_cons.mp hplain
    have hnames : stagedNames (step :: steps) = stagedNames [step] ++ stagedNames steps :=
      stagedNames_append [step] steps
    rw [hnames, List.forall_mem_append] at hplace
    obtain ⟨hfirst, hothers⟩ := hplace
    have hkept : (step.take options p).2.world.tree.file? place = p.world.tree.file? place := by
      refine Step.file?_take hstep (hspares.mono ?_) hfirst
      cases step with
      | build => exact Nat.le_add_left 1 _
      | keep => exact Nat.zero_le _
    cases htake : step.take options p with
    | mk result q =>
      rw [htake] at hkept
      cases result with
      | error e =>
        rw [takeAll, htake]
        exact hkept
      | ok u =>
        obtain ⟨hdirectory, hspared⟩ := Step.spares_take hstep htake hspares
        rw [takeAll_cons_ok htake, ← hkept]
        rw [← hdirectory] at hothers
        exact ih hsteps hspared hothers

/-! ### What is staged stays -/

/-- Files that are staged, and their index, have names of their own, and so they stay. What lies under
such a name once some steps are taken is still there when further steps are taken, whether these succeed
or not, as long as the builds among them spare it; and the index is written beside all that is staged. -/
structure StaysStaged (options : Options) (steps : List Step) : Prop where
  names : (indexFile :: stagedNames steps).Nodup
  lasts : ∀ (done next rest : List Step) (p mid : Progress), steps = done ++ next ++ rest →
    takeAll options done p = (.ok (), mid) → ∀ name ∈ indexFile :: stagedNames done,
      mid.world.Spares (builds next) (options.stagedAt mid.world.directory name) →
        (takeAll options (done ++ next) p).2.world.tree.file?
            (options.stagedAt mid.world.directory name) =
          mid.world.tree.file? (options.stagedAt mid.world.directory name)
  listing : ∀ (tree tree' : Tree) (directory : Place) (index : Index),
    writeIndex tree directory options.outDir index = .ok tree' → ∀ name ∈ stagedNames steps,
      tree'.file? (options.stagedAt directory name) = tree.file? (options.stagedAt directory name)

theorem staysStaged_of_nodup (hplain : ∀ step ∈ steps, step.Plain)
    (hnames : (indexFile :: stagedNames steps).Nodup) : StaysStaged options steps := by
  refine ⟨hnames, ?_, ?_⟩
  · rintro done next rest p mid rfl hdone name hname hspares
    rw [stagedNames_append, stagedNames_append, List.append_assoc, ← List.cons_append] at hnames
    obtain ⟨-, -, hapart⟩ := List.nodup_append.mp hnames
    have hnext : ∀ step ∈ next, step.Plain := fun step hstep =>
      hplain step (List.mem_append_left _ (List.mem_append_right _ hstep))
    rw [takeAll_append hdone]
    refine file?_takeAll hnext hspares fun other hother hplace => ?_
    exact hapart name hname other (List.mem_append_left _ hother) (Options.stagedAt_inj hplace)
  · intro tree tree' directory index hwrite name hname
    obtain ⟨rfl, -⟩ := Tree.write_ok (mapError_eq_ok_iff.mp hwrite)
    refine Tree.file?_set_other _ fun hplace => ?_
    rw [placeFrom_indexPath] at hplace
    obtain rfl := Options.stagedAt_inj hplace
    exact (List.nodup_cons.mp hnames).1 hname

/-- The files of two variants have two names, which are none of the other names in a staged directory.
So variants that differ from each other are staged without overwriting one file with another. -/
theorem staged_names_never_collide (options : Options) (hdistinct : variants.Nodup) :
    (∀ v w : Int64, libraryFile (variantStem v) = libraryFile (variantStem w) → v = w) ∧
      (∀ v : Int64, libraryFile (variantStem v) ∉
        [libraryFile exporterStem, libraryFile importedStem, executableFile pathHostStem,
         executableFile nameHostStem, indexFile]) ∧
      StaysStaged options (planFor variants) :=
  ⟨fun _ _ => variantFile_inj, variantFile_not_mem,
    staysStaged_of_nodup plain_of_mem_planFor (nodup_planFor hdistinct)⟩

/-- A staging in the small workspace, with builds of libraries that tell their variants. -/
def signedStart : Progress :=
  sampleOptions.begun (sampleWorld (sampleBuilds.take 2 ++
    [sampleBuild [("liblwtest_a.so", "minus one")] (.exited 0),
     sampleBuild [("liblwtest_a.so", "one")] (.exited 0)]))

/-- The library of variant -1 stays as it was copied while variant 1 is staged after it. -/
theorem negative_variant_stays_staged :
    [(-1 : Int64), 1].Nodup ∧ ∃ last,
      takeAll sampleOptions (planFor [-1, 1]) signedStart = (.ok (), last) ∧
        last.world.tree.file?
            (sampleOptions.stagedAt signedStart.world.directory "liblwtest_a_v-1.so") =
          some (Utf8.encode "minus one") := by
  have hdistinct : [(-1 : Int64), 1].Nodup := by decide
  obtain ⟨-, -, hstays⟩ := staged_names_never_collide sampleOptions hdistinct
  -- The fourth step is the copy for variant -1.
  have hcopied : (takeAll sampleOptions ((planFor [-1, 1]).take 4) signedStart).1.toOption = some () ∧
      (takeAll sampleOptions ((planFor [-1, 1]).take 4) signedStart).2.world.directory =
        signedStart.world.directory ∧
      (takeAll sampleOptions ((planFor [-1, 1]).take 4) signedStart).2.world.tree.file?
          (sampleOptions.stagedAt signedStart.world.directory "liblwtest_a_v-1.so") =
        some (Utf8.encode "minus one") ∧
      (takeAll sampleOptions ((planFor [-1, 1]).take 4) signedStart).2.world.Spares 1
        (sampleOptions.stagedAt signedStart.world.directory "liblwtest_a_v-1.so") := by
    decide +kernel
  have hall : (takeAll sampleOptions (planFor [-1, 1]) signedStart).1.toOption = some () := by
    decide +kernel
  cases hdone : takeAll sampleOptions ((planFor [-1, 1]).take 4) signedStart with
  | mk result mid =>
    rw [hdone] at hcopied
    obtain ⟨hresult, hdirectory, hcontent, hspares⟩ := hcopied
    obtain rfl := ok_of_toOption hresult
    rw [← hdirectory] at hspares hcontent ⊢
    have hlast := hstays.lasts ((planFor [-1, 1]).take 4) ((planFor [-1, 1]).drop 4) [] signedStart
      mid (by decide) hdone "liblwtest_a_v-1.so" (by decide) hspares
    rw [List.take_append_drop, hcontent] at hlast
    cases hrun : takeAll sampleOptions (planFor [-1, 1]) signedStart with
    | mk result last =>
      rw [hrun] at hall hlast
      obtain rfl := ok_of_toOption hall
      exact ⟨hdistinct, last, rfl, hlast⟩

end LoaderBench.Staging
