import LoaderBench.Proofs.Staging.Step

/-!
# Steps taken one after another

Steps are taken up to the first that fails. `Taken` is a stretch of steps that all succeed, and the
lemmas about it go by induction on the stretch: what it keeps, which runs it makes, what it shows, which
files it replaces and what it enters in the index.

Copies leave what was built as it is, so what a copy takes is told by the number of builds before it:
`kept` lists the copies among steps with that number, and `treeAfter` is the tree right after so many
builds.
-/

namespace LoaderBench.Staging

open LoaderBench.Artifact LoaderBench.FileTree LoaderBench.Platform LoaderBench.Text

variable {options : Options} {step : Step} {steps : List Step} {p q : Progress} {place : Place}

/-- A stretch of steps that all succeed. -/
inductive Taken (options : Options) : List Step → Progress → Progress → Prop where
  | none {p : Progress} : Taken options [] p p
  | next {step : Step} {steps : List Step} {p mid q : Progress} :
      step.take options p = (.ok (), mid) → Takes options step p mid →
      Taken options steps mid q → Taken options (step :: steps) p q

/-! ### What stays -/

/-- A later world of the same process. Behaviours at the front of the script may be used up. -/
structure Later (world later : World) : Prop where
  directory : later.directory = world.directory
  environment : later.environment = world.environment
  programs : later.programs = world.programs
  now : later.now = world.now
  script : later.script <:+ world.script

theorem Later.refl (world : World) : Later world world :=
  ⟨rfl, rfl, rfl, rfl, List.suffix_refl _⟩

theorem Later.trans {a b c : World} (h : Later a b) (h' : Later b c) : Later a c :=
  ⟨h'.directory.trans h.directory, h'.environment.trans h.environment,
    h'.programs.trans h.programs, h'.now.trans h.now, h'.script.trans h.script⟩

theorem Takes.later (h : Takes options step p q) : Later p.world q.world := by
  cases h with
  | build => exact ⟨rfl, rfl, rfl, rfl, List.tail_suffix _⟩
  | keep => exact ⟨rfl, rfl, rfl, rfl, List.suffix_refl _⟩

theorem Taken.later (h : Taken options steps p q) : Later p.world q.world := by
  induction h with
  | none => exact .refl _
  | next _ hstep _ ih => exact hstep.later.trans ih

/-! ### The first failure -/

theorem takeAll_cons_ok (htake : step.take options p = (.ok (), q)) (steps : List Step) :
    takeAll options (step :: steps) p = takeAll options steps q := by
  rw [takeAll, htake]

theorem takeAll_append {done : List Step} {mid : Progress}
    (h : takeAll options done p = (.ok (), mid)) (next : List Step) :
    takeAll options (done ++ next) p = takeAll options next mid := by
  induction done generalizing p with
  | nil =>
    cases h
    rfl
  | cons step done ih =>
    rw [takeAll] at h
    cases htake : step.take options p with
    | mk result q =>
      rw [htake] at h
      cases result with
      | error e => cases h
      | ok u =>
        rw [List.cons_append, takeAll_cons_ok htake]
        exact ih h

/-- Steps are all taken, or one fails after those before it were taken. -/
theorem takeAll_cases (hplain : ∀ step ∈ steps, step.Plain) (p : Progress)
    (hne : options.outPlace p.world.directory ≠ options.profilePlace p.world.directory) :
    (∃ q, takeAll options steps p = (.ok (), q) ∧ Taken options steps p q) ∨
      ∃ done step rest mid e world, steps = done ++ step :: rest ∧ Taken options done p mid ∧
        Fails options step mid e world ∧ takeAll options steps p = (.error e, ⟨world, mid.index⟩) := by
  induction steps generalizing p with
  | nil => exact .inl ⟨p, rfl, .none⟩
  | cons step steps ih =>
    rcases take_comes (hplain step List.mem_cons_self) p hne with
      ⟨mid, htake, hstep⟩ | ⟨e, world, htake, hfails⟩
    · have hall := takeAll_cons_ok htake steps
      -- The process stays in its directory, so the two places are apart for the rest as well.
      rw [← hstep.later.directory] at hne
      rcases ih (fun s hs => hplain s (List.mem_cons_of_mem _ hs)) mid hne with
        ⟨q, hrest, htaken⟩ | ⟨done, step', rest, last, e, world, rfl, htaken, hfails, hrest⟩
      · exact .inl ⟨q, hall.trans hrest, .next htake hstep htaken⟩
      · exact .inr ⟨step :: done, step', rest, last, e, world, rfl, .next htake hstep htaken, hfails,
          hall.trans hrest⟩
    · refine .inr ⟨[], step, steps, p, e, world, rfl, .none, hfails, ?_⟩
      rw [takeAll, htake]

/-! ### Runs -/

def Options.callOf (options : Options) (world : World) : Step → Option Call
  | .build arguments variant => some (options.buildCall world arguments variant)
  | .keep _ _ _ _ => none

def Options.shownOf (options : Options) (world : World) : Step → String
  | .build arguments variant =>
    "harness: " ++ (buildCommand options world arguments variant).text ++ "\n"
  | .keep _ _ _ _ => ""

theorem Later.buildCall {world later : World} (h : Later world later) (arguments : List String)
    (variant : Option Int64) :
    options.buildCall later arguments variant = options.buildCall world arguments variant := by
  rw [Options.buildCall, h.directory, h.environment, Options.buildCall]

theorem Later.callOf {world later : World} (h : Later world later) :
    options.callOf later = options.callOf world := by
  funext step
  cases step with
  | build arguments variant => exact congrArg some (h.buildCall arguments variant)
  | keep => rfl

theorem Later.shownOf {world later : World} (h : Later world later) :
    options.shownOf later = options.shownOf world := by
  funext step
  cases step with
  | build arguments variant =>
    have hcommand : buildCommand options later arguments variant =
        buildCommand options world arguments variant := by
      unfold buildCommand Options.command
      rw [h.environment]
    rw [Options.shownOf, hcommand, Options.shownOf]
  | keep => rfl

theorem Takes.calls (h : Takes options step p q) :
    q.world.calls = p.world.calls ++ (options.callOf p.world step).toList := by
  cases h with
  | build => exact congrArg (fun call => p.world.calls ++ [call]) (call_buildCommand _ _ _ _)
  | keep => exact (List.append_nil _).symm

theorem Takes.errors (h : Takes options step p q) :
    q.world.errors = p.world.errors ++ options.shownOf p.world step := by
  cases h with
  | build => exact String.append_assoc ..
  | keep => exact String.append_empty.symm

theorem Taken.calls (h : Taken options steps p q) :
    q.world.calls = p.world.calls ++ steps.filterMap (options.callOf p.world) := by
  induction h with
  | none => exact (List.append_nil _).symm
  | @next step steps p mid q _ hstep _ ih =>
    rw [ih, hstep.calls, hstep.later.callOf, List.append_assoc, List.filterMap_cons]
    cases options.callOf p.world step <;> rfl

theorem Taken.errors (h : Taken options steps p q) :
    q.world.errors = p.world.errors ++ String.join (steps.map (options.shownOf p.world)) := by
  induction h with
  | none => exact String.append_empty.symm
  | next _ hstep _ ih =>
    rw [ih, hstep.errors, hstep.later.shownOf, List.map_cons, String.join_cons, String.append_assoc]

/-! ### Copies and builds among steps -/

/-- A copy among steps, and how many builds come before it. -/
structure Kept where
  built : String
  staged : String
  kind : Kind
  variant : Option Int64
  runs : Nat
  deriving DecidableEq

def Kept.later (k : Kept) : Kept := { k with runs := k.runs + 1 }

def kept : List Step → List Kept
  | [] => []
  | .build _ _ :: steps => (kept steps).map Kept.later
  | .keep built staged kind variant :: steps => ⟨built, staged, kind, variant, 0⟩ :: kept steps

def builds : List Step → Nat
  | [] => 0
  | .build _ _ :: steps => builds steps + 1
  | .keep _ _ _ _ :: steps => builds steps

/-- The tree right after a number of builds. -/
def treeAfter (options : Options) : Nat → List Step → Progress → Tree
  | 0, _, p => p.world.tree
  | _ + 1, [], p => p.world.tree
  | n + 1, .build arguments variant :: steps, p =>
    treeAfter options n steps (Step.take options (.build arguments variant) p).2
  | n + 1, .keep built staged kind variant :: steps, p =>
    treeAfter options (n + 1) steps (Step.take options (.keep built staged kind variant) p).2

def stagedNames (steps : List Step) : List String := (kept steps).map Kept.staged

theorem stagedNames_build (arguments : List String) (variant : Option Int64) (steps : List Step) :
    stagedNames (.build arguments variant :: steps) = stagedNames steps := by
  rw [stagedNames, kept, List.map_map]
  rfl

theorem stagedNames_keep (built staged : String) (kind : Kind) (variant : Option Int64)
    (steps : List Step) :
    stagedNames (.keep built staged kind variant :: steps) = staged :: stagedNames steps := rfl

theorem stagedNames_append (a b : List Step) :
    stagedNames (a ++ b) = stagedNames a ++ stagedNames b := by
  induction a with
  | nil => rfl
  | cons step a ih =>
    cases step with
    | build => rw [List.cons_append, stagedNames_build, ih, stagedNames_build]
    | keep => rw [List.cons_append, stagedNames_keep, ih, stagedNames_keep, List.cons_append]

/-! ### Files that are left alone -/

/-- Whether the next runs of programs keep off a place. -/
def World.Spares (world : World) (runs : Nat) (place : Place) : Prop :=
  ∀ b ∈ world.script.take runs, ∀ w ∈ b.writes, Path.placeFrom world.directory w.1 ≠ place

instance (world : World) (runs : Nat) (place : Place) : Decidable (world.Spares runs place) :=
  inferInstanceAs (Decidable (∀ b ∈ world.script.take runs, ∀ w ∈ b.writes,
    Path.placeFrom world.directory w.1 ≠ place))

/-- Whether no run of a program writes below a place. -/
def World.KeepsOut (world : World) (upper : Place) : Prop :=
  ∀ b ∈ world.script, ∀ w ∈ b.writes, ¬ Below upper (Path.placeFrom world.directory w.1)

instance (world : World) (upper : Place) : Decidable (world.KeepsOut upper) :=
  inferInstanceAs (Decidable (∀ b ∈ world.script, ∀ w ∈ b.writes,
    ¬ Below upper (Path.placeFrom world.directory w.1)))

theorem World.Spares.mono {world : World} {runs fewer : Nat} (h : world.Spares runs place)
    (hle : fewer ≤ runs) : world.Spares fewer place :=
  fun b hb => h b (List.take_subset_take_left _ hle hb)

theorem World.KeepsOut.spares {world : World} {upper : Place} (h : world.KeepsOut upper)
    (hbelow : Below upper place) (runs : Nat) : world.Spares runs place := by
  intro b hb w hw hplace
  refine h b (List.mem_of_mem_take hb) w hw ?_
  rw [hplace]
  exact hbelow

theorem World.KeepsOut.later {world later : World} {upper : Place} (h : world.KeepsOut upper)
    (hlater : Later world later) : later.KeepsOut upper := by
  intro b hb w hw
  rw [hlater.directory]
  exact h b (hlater.script.mem hb) w hw

theorem file?_written (tree : Tree) {directory : Place} {writes : List (Path × Bytes)}
    (h : ∀ w ∈ writes, Path.placeFrom directory w.1 ≠ place) :
    (World.written tree directory writes).file? place = tree.file? place := by
  induction writes generalizing tree with
  | nil => rfl
  | cons w writes ih =>
    have hfirst := Tree.file?_plant tree w.2 (h w List.mem_cons_self).symm
    have hrest := ih (tree.plant directory w.1 w.2) fun v hv => h v (List.mem_cons_of_mem _ hv)
    exact hrest.trans hfirst

theorem World.Spares.ran {world : World} {runs : Nat} (h : world.Spares (runs + 1) place)
    (command : Command) : (command.ran world).Spares runs place := by
  have hscript : (command.ran world).script = world.script.tail := rfl
  intro b hb
  rw [hscript] at hb
  refine h b ?_
  cases hcases : world.script with
  | nil =>
    rw [hcases, List.tail_nil, List.take_nil] at hb
    exact absurd hb List.not_mem_nil
  | cons first script =>
    rw [hcases, List.tail_cons] at hb
    rw [List.take_succ_cons]
    exact List.mem_cons_of_mem _ hb

theorem next_of_mem_writes {script : List Behaviour} {w : Path × Bytes}
    (h : w ∈ (script.headD .idle).writes) : ∃ b rest, script = b :: rest ∧ w ∈ b.writes := by
  cases script with
  | nil => exact absurd h List.not_mem_nil
  | cons b rest => exact ⟨b, rest, rfl, h⟩

theorem World.Spares.file?_ran {world : World} {runs : Nat} (h : world.Spares (runs + 1) place)
    (command : Command) : (command.ran world).tree.file? place = world.tree.file? place := by
  have htree : (command.ran world).tree =
      World.written world.tree world.directory (world.script.headD .idle).writes := rfl
  rw [htree]
  refine file?_written world.tree fun w hw => ?_
  obtain ⟨b, rest, hscript, hwrites⟩ := next_of_mem_writes hw
  refine h b ?_ w hwrites
  rw [hscript, List.take_succ_cons]
  exact List.mem_cons_self

theorem Taken.file? (h : Taken options steps p q) (hcargo : p.world.Spares (builds steps) place)
    (hplace : ∀ name ∈ stagedNames steps, place ≠ options.stagedAt p.world.directory name) :
    q.world.tree.file? place = p.world.tree.file? place := by
  induction h with
  | none => rfl
  | next _ hstep _ ih =>
    cases hstep with
    | build hrefusal hend =>
      rw [stagedNames_build] at hplace
      have hsame := ih (World.Spares.ran hcargo _) hplace
      exact hsame.trans (World.Spares.file?_ran hcargo _)
    | keep hread hwritten hother =>
      rw [stagedNames_keep] at hplace
      have hsame := ih hcargo fun name hname => hplace name (List.mem_cons_of_mem _ hname)
      exact hsame.trans (Tree.file?_of_node? (hother _ (hplace _ List.mem_cons_self)))

/-! ### Files that are staged -/

theorem treeAfter_zero (options : Options) (steps : List Step) (p : Progress) :
    treeAfter options 0 steps p = p.world.tree := by
  cases steps <;> rfl

theorem treeAfter_build {arguments : List String} {variant : Option Int64} {mid : Progress}
    (htake : Step.take options (.build arguments variant) p = (.ok (), mid)) (runs : Nat) :
    treeAfter options (runs + 1) (.build arguments variant :: steps) p =
      treeAfter options runs steps mid := by
  rw [treeAfter, htake]

/-- A copy leaves what was built as it is, whatever builds come after. -/
theorem file?_treeAfter_keep {built staged : String} {kind : Kind} {variant : Option Int64}
    {mid : Progress} (htake : Step.take options (.keep built staged kind variant) p = (.ok (), mid))
    (hother : ∀ place, place ≠ options.stagedAt p.world.directory staged →
      mid.world.tree.node? place = p.world.tree.node? place)
    (hplace : place ≠ options.stagedAt p.world.directory staged) (runs : Nat) (steps : List Step) :
    (treeAfter options runs (.keep built staged kind variant :: steps) p).file? place =
      (treeAfter options runs steps mid).file? place := by
  cases runs with
  | zero =>
    rw [treeAfter_zero, treeAfter_zero]
    exact (Tree.file?_of_node? (hother _ hplace)).symm
  | succ runs => rw [treeAfter, htake]

theorem Taken.file?_treeAfter (h : Taken options steps p q)
    (hplace : ∀ name ∈ stagedNames steps, place ≠ options.stagedAt p.world.directory name) :
    q.world.tree.file? place = (treeAfter options (builds steps) steps p).file? place := by
  induction h with
  | none => rfl
  | next htake hstep _ ih =>
    rw [hstep.later.directory] at ih
    cases hstep with
    | build hrefusal hend =>
      rw [stagedNames_build] at hplace
      rw [builds, treeAfter_build htake]
      exact ih hplace
    | keep hread hwritten hother =>
      rw [stagedNames_keep] at hplace
      rw [builds, file?_treeAfter_keep htake hother (hplace _ List.mem_cons_self)]
      exact ih fun name hname => hplace name (List.mem_cons_of_mem _ hname)

/-- What the builds before a copy have built for it. -/
def builtFor (options : Options) (steps : List Step) (p : Progress) (k : Kept) : Bytes :=
  (treeAfter options k.runs steps p).bytesAt (options.builtAt p.world.directory k.built)

def Kept.entry (k : Kept) (content : Bytes) : Artifact.Entry :=
  entryFor k.staged k.kind k.variant content

theorem builtFor_build {arguments : List String} {variant : Option Int64} {mid : Progress}
    (htake : Step.take options (.build arguments variant) p = (.ok (), mid))
    (hstep : Takes options (.build arguments variant) p mid) (k : Kept) :
    builtFor options (.build arguments variant :: steps) p k.later =
      builtFor options steps mid k := by
  show (treeAfter options (k.runs + 1) _ p).bytesAt (options.builtAt _ k.built) = _
  rw [treeAfter_build htake, ← hstep.later.directory, builtFor]

theorem builtFor_keep {built staged : String} {kind : Kind} {variant : Option Int64}
    {mid : Progress} (htake : Step.take options (.keep built staged kind variant) p = (.ok (), mid))
    (hother : ∀ place, place ≠ options.stagedAt p.world.directory staged →
      mid.world.tree.node? place = p.world.tree.node? place)
    (hdirectory : mid.world.directory = p.world.directory)
    (hne : options.outPlace p.world.directory ≠ options.profilePlace p.world.directory) (k : Kept) :
    builtFor options (.keep built staged kind variant :: steps) p k =
      builtFor options steps mid k := by
  have hsame := file?_treeAfter_keep htake hother
    (Options.builtAt_ne_stagedAt k.built staged hne) k.runs steps
  rw [builtFor, Tree.bytesAt_eq, hsame, ← hdirectory, ← Tree.bytesAt_eq, builtFor]

theorem builtFor_first {built staged : String} {kind : Kind} {variant : Option Int64} {content : Bytes}
    (hread : p.world.tree.file? (options.builtAt p.world.directory built) = some content) :
    builtFor options steps p ⟨built, staged, kind, variant, 0⟩ = content := by
  rw [builtFor, treeAfter_zero, Tree.bytesAt_eq, hread, Option.getD_some]

/-- The index gets an entry for each copy, in order. -/
theorem Taken.index (h : Taken options steps p q)
    (hne : options.outPlace p.world.directory ≠ options.profilePlace p.world.directory) :
    q.index = { p.index with
      artifacts := p.index.artifacts ++
        (kept steps).map fun k => k.entry (builtFor options steps p k) } := by
  induction h with
  | none =>
    rw [kept, List.map_nil, List.append_nil]
  | @next step steps p mid q htake hstep _ ih =>
    have hrest := ih (by rwa [hstep.later.directory])
    have hlater := hstep.later
    cases hstep with
    | build hrefusal hend =>
      have hentry (k : Kept) : k.later.entry (builtFor options (_ :: steps) p k.later) =
          k.entry (builtFor options steps _ k) :=
        congrArg k.entry (builtFor_build htake (.build hrefusal hend) k)
      rw [hrest, kept, List.map_map, Function.comp_def]
      simp only [hentry]
    | @keep built staged kind variant _ tree content hread hwritten hother =>
      have hentry (k : Kept) : k.entry (builtFor options (_ :: steps) p k) =
          k.entry (builtFor options steps _ k) :=
        congrArg k.entry (builtFor_keep htake hother hlater.directory hne k)
      rw [hrest, kept, List.map_cons, builtFor_first hread]
      simp only [hentry]
      rw [List.append_cons]
      rfl

/-- Files that are staged under names of their own have in the end what was built for them. -/
theorem Taken.staged (h : Taken options steps p q) (hnodup : (stagedNames steps).Nodup)
    (hne : options.outPlace p.world.directory ≠ options.profilePlace p.world.directory)
    (hcargo : ∀ name ∈ stagedNames steps,
      p.world.Spares (builds steps) (options.stagedAt p.world.directory name)) :
    ∀ k ∈ kept steps,
      (treeAfter options k.runs steps p).file? (options.builtAt p.world.directory k.built) =
          some (builtFor options steps p k) ∧
        q.world.tree.file? (options.stagedAt p.world.directory k.staged) =
          some (builtFor options steps p k) := by
  induction h with
  | none => exact fun k hk => absurd hk List.not_mem_nil
  | @next step steps p mid q htake hstep hrest ih =>
    have hlater := hstep.later
    have hne' : options.outPlace mid.world.directory ≠ options.profilePlace mid.world.directory := by
      rwa [hlater.directory]
    intro k hk
    cases hstep with
    | build hrefusal hend =>
      -- A copy after this build has one build more before it than among the rest.
      rw [stagedNames_build] at hnodup hcargo
      obtain ⟨k, hmem, rfl⟩ := List.mem_map.mp hk
      obtain ⟨hbuilt, hstaged⟩ := ih hnodup hne'
        (fun name hname => World.Spares.ran (hcargo name hname) _) k hmem
      rw [builtFor_build htake (.build hrefusal hend) k]
      refine ⟨?_, hstaged⟩
      show (treeAfter options (k.runs + 1) _ p).file? _ = _
      rw [treeAfter_build htake]
      exact hbuilt
    | @keep built staged kind variant _ tree content hread hwritten hother =>
      rw [stagedNames_keep] at hnodup hcargo
      obtain ⟨hfresh, hnodup⟩ := List.nodup_cons.mp hnodup
      rcases List.mem_cons.mp hk with rfl | hk
      · rw [builtFor_first hread]
        refine ⟨by rw [treeAfter_zero]; exact hread, ?_⟩
        -- No later copy has this name, and no build writes there, so the copy lasts.
        have hkept := hrest.file? (hcargo staged List.mem_cons_self) fun name hname hplace =>
          hfresh (Options.stagedAt_inj hplace ▸ hname)
        exact hkept.trans hwritten
      · obtain ⟨hbuilt, hstaged⟩ := ih hnodup hne'
          (fun name hname => hcargo name (List.mem_cons_of_mem _ hname)) k hk
        rw [builtFor_keep htake hother hlater.directory hne k]
        refine ⟨?_, hstaged⟩
        rw [file?_treeAfter_keep htake hother (Options.builtAt_ne_stagedAt _ _ hne) k.runs]
        exact hbuilt

end LoaderBench.Staging
