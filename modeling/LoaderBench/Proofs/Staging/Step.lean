import LoaderBench.Proofs.Staging.Summary
import LoaderBench.Proofs.Text.Utf8
import LoaderBench.Staging.Plan

/-!
# What a step of staging does

A build hands a command over. If it can be started, the files change as the script says, and how the
run ends decides on the step. A copy puts what was built under a name of the output directory, touches
no other place, and enters digest and length of the content in the index. `Takes` and `Fails` say all
that a step can do, as long as the output directory is not the one in which builds leave their results.
-/

namespace LoaderBench.Staging

open LoaderBench.Artifact LoaderBench.FileTree LoaderBench.Platform LoaderBench.Text

/-! ### Places

A file that is built or staged is at the place of its directory, followed by its name. -/

namespace Options

def outPlace (options : Options) (directory : Place) : Place :=
  Path.placeFrom directory options.outDir

def profilePlace (options : Options) (directory : Place) : Place :=
  Path.placeFrom directory options.profileDir

def stagedAt (options : Options) (directory : Place) (name : String) : Place :=
  options.outPlace directory ++ [Utf8.encode name]

def builtAt (options : Options) (directory : Place) (name : String) : Place :=
  options.profilePlace directory ++ [Utf8.encode name]

variable {options : Options} {directory : Place} {name other : String}

theorem below_stagedAt (options : Options) (directory : Place) (name : String) :
    Below (options.outPlace directory) (options.stagedAt directory name) :=
  below_append_singleton _ _

theorem placeFrom_staged (options : Options) (directory : Place) (h : PlainName (Utf8.encode name)) :
    Path.placeFrom directory (Path.joinText options.outDir name) = options.stagedAt directory name :=
  Path.placeFrom_join h directory options.outDir

theorem placeFrom_built (options : Options) (directory : Place) (h : PlainName (Utf8.encode name)) :
    Path.placeFrom directory (Path.joinText options.profileDir name) =
      options.builtAt directory name :=
  Path.placeFrom_join h directory options.profileDir

theorem builtAt_ne_stagedAt (name other : String)
    (h : options.outPlace directory ≠ options.profilePlace directory) :
    options.builtAt directory name ≠ options.stagedAt directory other := by
  intro hsame
  have hfront := congrArg List.dropLast hsame
  rw [builtAt, stagedAt, List.dropLast_concat, List.dropLast_concat] at hfront
  exact h hfront.symm

theorem stagedAt_inj (h : options.stagedAt directory name = options.stagedAt directory other) :
    name = other := by
  have hname : Utf8.encode name = Utf8.encode other :=
    List.cons.inj (List.append_cancel_left h) |>.1
  exact Utf8.encode_inj hname

end Options

/-! ### Commands

A command is refused before it runs, or it is shown, runs as the script says, and is remembered. -/

namespace World

/-- Why a program cannot be started in a directory, if it cannot. -/
def refusal? (world : World) (program : Bytes) (directory : Path) : Option IoError :=
  match world.startingPlace directory with
  | .error e => some e
  | .ok _ => if program ≠ [] ∧ world.programs.contains program then none else some (.os notFound)

/-- The world in which a program has done what the script says. -/
def ran (world : World) (call : Call) : World :=
  { world with
    tree := written world.tree world.directory (world.script.headD .idle).writes
    script := world.script.tail
    calls := world.calls ++ [call] }

variable {world : World} {program : Bytes} {directory : Path}

theorem startingPlace_ok {place : Place} (h : world.startingPlace directory = .ok place) :
    place = Path.placeFrom world.directory directory := by
  obtain ⟨found, hlocate, hnode⟩ := ok_of_bind h
  obtain ⟨hfound, -⟩ := Tree.locate_ok hlocate
  split at hnode
  · rw [← Except.ok.inj hnode, hfound]
  · cases hnode
  · cases hnode

theorem run_refused {e : IoError} (h : world.refusal? program directory = some e)
    (arguments : List String) (environment : Environment) :
    world.run program arguments directory environment = (.error e, world) := by
  unfold refusal? at h
  unfold run
  cases hplace : world.startingPlace directory with
  | error e' =>
    rw [hplace] at h
    obtain rfl := Option.some.inj h
    rfl
  | ok place =>
    rw [hplace] at h
    dsimp only at h ⊢
    split at h
    · cases h
    · rename_i hprogram
      obtain rfl := Option.some.inj h
      rw [if_neg hprogram]

theorem run_started (h : world.refusal? program directory = none) (arguments : List String)
    (environment : Environment) :
    world.run program arguments directory environment =
      (.ok (world.script.headD .idle).ending,
        world.ran ⟨arguments, Path.placeFrom world.directory directory, environment⟩) := by
  unfold refusal? at h
  unfold run
  cases hplace : world.startingPlace directory with
  | error e =>
    rw [hplace] at h
    cases h
  | ok place =>
    rw [hplace] at h
    obtain rfl := startingPlace_ok hplace
    dsimp only at h ⊢
    split at h
    · rename_i hprogram
      rw [if_pos hprogram]
      rfl
    · cases h

end World

namespace Command

def refusal? (command : Command) (world : World) : Option IoError :=
  if command.isPlain world.environment then world.refusal? command.program command.directory
  else some .nulInCommand

def announced (command : Command) (world : World) : World :=
  world.complain ("harness: " ++ command.text)

def call (command : Command) (world : World) : Call :=
  ⟨command.arguments, Path.placeFrom world.directory command.directory,
    command.environment world.environment⟩

def ran (command : Command) (world : World) : World :=
  (command.announced world).ran (command.call world)

variable {command : Command} {world : World}

theorem run_refused {e : IoError} (h : command.refusal? world = some e) :
    command.run world =
      (.error (.spawn (Utf8.lossy command.program) e), command.announced world) := by
  unfold refusal? at h
  unfold run
  by_cases hplain : command.isPlain world.environment = true
  · rw [if_pos hplain] at h
    -- Showing the command has no part in whether the program can be started.
    have hshown : (command.announced world).refusal? command.program command.directory = some e := h
    have hrun := World.run_refused hshown command.arguments
      (command.environment (command.announced world).environment)
    refine (if_pos hplain).trans ?_
    rw [announced] at hrun
    rw [hrun]
    rfl
  · rw [if_neg hplain] at h
    obtain rfl := Option.some.inj h
    exact if_neg hplain

theorem run_started (h : command.refusal? world = none) :
    command.run world =
      (if (world.script.headD .idle).ending = .exited 0 then .ok ()
       else .error (.commandFailed command.text (statusText (world.script.headD .idle).ending)),
       command.ran world) := by
  unfold refusal? at h
  unfold run
  by_cases hplain : command.isPlain world.environment = true
  · rw [if_pos hplain] at h
    have hshown : (command.announced world).refusal? command.program command.directory = none := h
    have hrun := World.run_started hshown command.arguments
      (command.environment (command.announced world).environment)
    refine (if_pos hplain).trans ?_
    rw [announced] at hrun
    rw [hrun]
    show (if (world.script.headD .idle).ending = .exited 0 then _ else _) = _
    by_cases hend : (world.script.headD .idle).ending = .exited 0
    · rw [if_pos hend, if_pos hend]
      rfl
    · rw [if_neg hend, if_neg hend]
      rfl
  · rw [if_neg hplain] at h
    cases h

end Command

/-- The variables that a build step sets: where to build, and the variant if there is one. -/
def Options.settings (options : Options) (variant : Option Int64) : List (Bytes × Bytes) :=
  (Utf8.encode targetVariable, options.targetDir) ::
    variant.toList.map fun v => (Utf8.encode variantVariable, Utf8.encode (signed v.toInt))

/-- The run of the build program for a build step. -/
def Options.buildCall (options : Options) (world : World) (arguments : List String)
    (variant : Option Int64) : Call where
  arguments := "build" :: (if options.release then ["--release"] else []) ++ arguments
  directory := Path.placeFrom world.directory options.workspaceRoot
  environment := world.environment.setAll (options.settings variant)

theorem call_buildCommand (options : Options) (world : World) (arguments : List String)
    (variant : Option Int64) :
    (buildCommand options world arguments variant).call world =
      options.buildCall world arguments variant := by
  cases hrelease : options.release <;> cases variant <;>
    simp [buildCommand, Options.command, Command.call, Command.release, hrelease, Command.env,
      Command.args, Command.arg, Command.new, Command.environment, Options.buildCall,
      Options.settings]

/-! ### Contents -/

def entryFor (name : String) (kind : Kind) (variant : Option Int64) (content : Bytes) :
    Artifact.Entry :=
  ⟨name, kind, variant, hexText (Sha256.digest content), UInt64.ofNat content.length⟩

/-- The entry of a file under its path is that of its content under its name. -/
theorem entryOf_file {tree : Tree} {directory place : Place} {into : Path} {name : String}
    {content : Bytes} (kind : Kind) (variant : Option Int64) (hname : PlainName (Utf8.encode name))
    (hlocate : tree.locate directory (Path.joinText into name) = .ok place)
    (hfile : tree.file? place = some content) :
    entryOf tree directory (Path.joinText into name) kind variant =
      .ok (entryFor name kind variant content) := by
  have hsummary := summarize_file hlocate hfile
  have hlast : Path.fileName? (Path.joinText into name) = some (Utf8.encode name) :=
    Path.fileName?_join hname into
  simp only [entryOf, hsummary, Summary.whole, bind, Except.bind, hlast, Utf8.lossy_encode, entryFor]

/-! ### Steps -/

/-- A copy changes the tree alone, and there the place of its target alone, however it comes out. -/
theorem copyInto_world (world : World) (source into : Path) (name : String) :
    ∃ tree, (copyInto world source into name).2 = { world with tree := tree } ∧
      ∀ place, place ≠ Path.placeFrom world.directory (Path.joinText into name) →
        tree.node? place = world.tree.node? place := by
  unfold copyInto
  split
  · dsimp only
    split
    · exact ⟨world.tree, rfl, fun _ _ => rfl⟩
    · rename_i tree hcopy
      exact ⟨tree, rfl, fun _ hplace => Tree.node?_copy hcopy hplace⟩
  · exact ⟨world.tree, rfl, fun _ _ => rfl⟩

/-- What is entered in the index has no part in the world. -/
theorem world_take_keep (options : Options) (built staged : String) (kind : Kind)
    (variant : Option Int64) (p : Progress) :
    (Step.take options (.keep built staged kind variant) p).2.world =
      (copyInto p.world (Path.joinText options.profileDir built) options.outDir staged).2 := by
  unfold Step.take
  dsimp only
  split
  · rename_i hcopied
    rw [hcopied]
  · rename_i hcopied
    rw [hcopied]
    split <;> rfl

/-- The names of a copy stand for themselves in every path. -/
def Step.Plain : Step → Prop
  | .build _ _ => True
  | .keep built staged _ _ => PlainName (Utf8.encode built) ∧ PlainName (Utf8.encode staged)

instance (step : Step) : Decidable step.Plain :=
  match step with
  | .build _ _ => .isTrue trivial
  | .keep built staged _ _ =>
    inferInstanceAs (Decidable (PlainName (Utf8.encode built) ∧ PlainName (Utf8.encode staged)))

/-- What a step does that succeeds. -/
inductive Takes (options : Options) : Step → Progress → Progress → Prop where
  | build {arguments : List String} {variant : Option Int64} {p : Progress} :
      (buildCommand options p.world arguments variant).refusal? p.world = none →
      (p.world.script.headD .idle).ending = .exited 0 →
      Takes options (.build arguments variant) p
        ⟨(buildCommand options p.world arguments variant).ran p.world, p.index⟩
  | keep {built staged : String} {kind : Kind} {variant : Option Int64} {p : Progress} {tree : Tree}
      {content : Bytes} :
      p.world.tree.file? (options.builtAt p.world.directory built) = some content →
      tree.file? (options.stagedAt p.world.directory staged) = some content →
      (∀ place, place ≠ options.stagedAt p.world.directory staged →
        tree.node? place = p.world.tree.node? place) →
      Takes options (.keep built staged kind variant) p
        ⟨{ p.world with tree := tree }, p.index.add (entryFor staged kind variant content)⟩

/-- How a step fails, and the world it leaves behind. -/
inductive Fails (options : Options) : Step → Progress → Failure → World → Prop where
  | spawn {arguments : List String} {variant : Option Int64} {p : Progress} {e : IoError} :
      (buildCommand options p.world arguments variant).refusal? p.world = some e →
      Fails options (.build arguments variant) p
        (.spawn (Utf8.lossy (buildCommand options p.world arguments variant).program) e)
        ((buildCommand options p.world arguments variant).announced p.world)
  | command {arguments : List String} {variant : Option Int64} {p : Progress} :
      (buildCommand options p.world arguments variant).refusal? p.world = none →
      (p.world.script.headD .idle).ending ≠ .exited 0 →
      Fails options (.build arguments variant) p
        (.commandFailed (buildCommand options p.world arguments variant).text
          (Command.statusText (p.world.script.headD .idle).ending))
        ((buildCommand options p.world arguments variant).ran p.world)
  | missing {built staged : String} {kind : Kind} {variant : Option Int64} {p : Progress} :
      p.world.tree.isFile p.world.directory (Path.joinText options.profileDir built) = false →
      Fails options (.keep built staged kind variant) p
        (.missingArtifact (Path.joinText options.profileDir built)) p.world
  | copy {built staged : String} {kind : Kind} {variant : Option Int64} {p : Progress} {e : IoError} :
      p.world.tree.isFile p.world.directory (Path.joinText options.profileDir built) = true →
      p.world.tree.copy p.world.directory (Path.joinText options.profileDir built)
        (Path.joinText options.outDir staged) = .error e →
      Fails options (.keep built staged kind variant) p
        (.io ("failed to copy " ++ Utf8.lossy (Path.joinText options.profileDir built) ++ " -> " ++
          Utf8.lossy (Path.joinText options.outDir staged)) e) p.world

variable {options : Options} {step : Step}

/-- How a step comes out: it is taken, or it fails and leaves the index as it is. -/
def Comes (options : Options) (step : Step) (p : Progress)
    (outcome : Except Failure Unit × Progress) : Prop :=
  (∃ q, outcome = (.ok (), q) ∧ Takes options step p q) ∨
    ∃ e world, outcome = (.error e, ⟨world, p.index⟩) ∧ Fails options step p e world

theorem take_build (options : Options) (arguments : List String) (variant : Option Int64)
    (p : Progress) :
    Comes options (.build arguments variant) p (Step.take options (.build arguments variant) p) := by
  cases hrefusal : (buildCommand options p.world arguments variant).refusal? p.world with
  | some e =>
    refine .inr ⟨_, _, ?_, .spawn hrefusal⟩
    rw [Step.take, Command.run_refused hrefusal]
  | none =>
    have hrun := Command.run_started hrefusal
    by_cases hend : (p.world.script.headD .idle).ending = .exited 0
    · rw [if_pos hend] at hrun
      refine .inl ⟨_, ?_, .build hrefusal hend⟩
      rw [Step.take, hrun]
    · rw [if_neg hend] at hrun
      refine .inr ⟨_, _, ?_, .command hrefusal hend⟩
      rw [Step.take, hrun]

theorem take_keep {built staged : String} (hbuilt : PlainName (Utf8.encode built))
    (hstaged : PlainName (Utf8.encode staged)) (kind : Kind) (variant : Option Int64) (p : Progress)
    (hne : options.outPlace p.world.directory ≠ options.profilePlace p.world.directory) :
    Comes options (.keep built staged kind variant) p
      (Step.take options (.keep built staged kind variant) p) := by
  have hsource := Options.placeFrom_built options p.world.directory hbuilt
  have htarget := Options.placeFrom_staged options p.world.directory hstaged
  cases hfile : p.world.tree.isFile p.world.directory (Path.joinText options.profileDir built) with
  | false =>
    refine .inr ⟨_, _, ?_, .missing hfile⟩
    simp only [Step.take, copyInto, hfile, Bool.false_eq_true, if_false]
  | true =>
    cases hcopy : p.world.tree.copy p.world.directory (Path.joinText options.profileDir built)
        (Path.joinText options.outDir staged) with
    | error e =>
      refine .inr ⟨_, _, ?_, .copy hfile hcopy⟩
      simp only [Step.take, copyInto, hfile, if_true, hcopy]
    | ok tree =>
      have hplaces : Path.placeFrom p.world.directory (Path.joinText options.profileDir built) ≠
          Path.placeFrom p.world.directory (Path.joinText options.outDir staged) := by
        rw [hsource, htarget]
        exact Options.builtAt_ne_stagedAt built staged hne
      obtain ⟨content, hread, hwritten, hlocate, hother⟩ := Tree.copy_ok hcopy hplaces
      have hentry := entryOf_file kind variant hstaged hlocate hwritten
      rw [hsource] at hread
      rw [htarget] at hwritten hother
      refine .inl ⟨_, ?_, .keep hread hwritten hother⟩
      simp only [Step.take, copyInto, hfile, if_true, hcopy, addFile, hentry]

theorem take_comes (hplain : step.Plain) (p : Progress)
    (hne : options.outPlace p.world.directory ≠ options.profilePlace p.world.directory) :
    Comes options step p (step.take options p) := by
  cases step with
  | build arguments variant => exact take_build options arguments variant p
  | keep built staged kind variant => exact take_keep hplain.1 hplain.2 kind variant p hne

end LoaderBench.Staging
