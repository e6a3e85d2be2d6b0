import LoaderBench.Proofs.Staging.Settings
import LoaderBench.Proofs.Staging.Step
import LoaderBench.Proofs.Text.Ascii

/-!
# What is recorded and what is handed over

A command is built by calls that add arguments and set variables. It tells about itself what it was
given: the arguments in the order of the calls, and for each variable the value of the last call that
set it. The program that it runs gets the same: those arguments, and in its environment those values on
top of the ones of its parent. How the program ends decides how the run does, and if there is no program
to start, then nothing is run.
-/

namespace LoaderBench.Staging

open LoaderBench.FileTree LoaderBench.Platform LoaderBench.Text

/-! ### Calls that build a command -/

inductive Change where
  | arg (argument : String)
  | args (arguments : List String)
  | release (wanted : Bool)
  | env (key : String) (value : Bytes)

namespace Change

def arguments : Change → List String
  | .arg argument => [argument]
  | .args arguments => arguments
  | .release wanted => if wanted then ["--release"] else []
  | .env _ _ => []

def setting? : Change → Option (String × Bytes)
  | .env key value => some (key, value)
  | _ => none

/-- The value that a call gives to a variable. -/
def value? (key : String) (change : Change) : Option Bytes :=
  change.setting?.bind fun s => if key == s.1 then some s.2 else none

theorem value?_eq_some_iff {key : String} {value : Bytes} {change : Change} :
    change.value? key = some value ↔ change = .env key value := by
  cases change with
  | arg argument => simp [value?, setting?]
  | args arguments => simp [value?, setting?]
  | release wanted => simp [value?, setting?]
  | env other given =>
    by_cases h : key = other
    · subst h
      simp [value?, setting?]
    · simp [value?, setting?, h, Ne.symm h]

end Change

namespace Command

def change (command : Command) : Change → Command
  | .arg argument => command.arg argument
  | .args arguments => command.args arguments
  | .release wanted => command.release wanted
  | .env key value => command.env key value

def changeAll (command : Command) (changes : List Change) : Command := changes.foldl change command

theorem change_eq (command : Command) (change : Change) : command.change change =
    { command with
      arguments := command.arguments ++ change.arguments
      settings := command.settings ++ change.setting?.toList } := by
  cases change with
  | arg argument => simp [Command.change, arg, Change.arguments, Change.setting?]
  | args arguments => simp [Command.change, args, Change.arguments, Change.setting?]
  | release wanted =>
    cases wanted with
    | false => simp [Command.change, release, Change.arguments, Change.setting?]
    | true => simp [Command.change, release, arg, Change.arguments, Change.setting?]
  | env key value => simp [Command.change, env, Change.arguments, Change.setting?]

theorem changeAll_eq (command : Command) (changes : List Change) : command.changeAll changes =
    { command with
      arguments := command.arguments ++ changes.flatMap Change.arguments
      settings := command.settings ++ changes.filterMap Change.setting? } := by
  induction changes generalizing command with
  | nil => simp [changeAll]
  | cons change changes ih =>
    have hstep : command.changeAll (change :: changes) = (command.change change).changeAll changes := rfl
    rw [hstep, ih, change_eq]
    cases hsetting : change.setting? with
    | none => simp [hsetting]
    | some setting => simp [hsetting]

variable (environment : Environment) (directory : Path) (subcommand : String) (changes : List Change)

theorem arguments_built : ((new environment directory subcommand).changeAll changes).arguments =
    subcommand :: changes.flatMap Change.arguments := by
  rw [changeAll_eq]
  rfl

theorem settings_built : ((new environment directory subcommand).changeAll changes).settings =
    changes.filterMap Change.setting? := by
  rw [changeAll_eq]
  rfl

/-- Of the calls that set a variable the last one tells its value. -/
theorem env?_built (key : String) :
    ((new environment directory subcommand).changeAll changes).env? key =
      (changes.filterMap (Change.value? key)).getLast? := by
  have hvalue : Change.value? key = fun change =>
      change.setting?.bind fun s => if key == s.1 then some s.2 else none := rfl
  rw [env?, settings_built, List.lookup_eq_findSome?, ← List.getLast?_filterMap,
    List.filterMap_filterMap, hvalue]

theorem env?_built_eq_some_iff {key : String} {value : Bytes} :
    ((new environment directory subcommand).changeAll changes).env? key = some value ↔
      ∃ before after, changes = before ++ .env key value :: after ∧
        ∀ other, .env key other ∉ after := by
  rw [env?_built, Environment.last_eq_some_iff]
  constructor
  · rintro ⟨before, change, after, hsplit, hchange, hnone⟩
    obtain rfl := Change.value?_eq_some_iff.mp hchange
    refine ⟨before, after, hsplit, ?_⟩
    intro other hmem
    have hother := hnone _ hmem
    rw [Change.value?_eq_some_iff.mpr rfl] at hother
    cases hother
  · rintro ⟨before, after, hsplit, hnone⟩
    refine ⟨before, _, after, hsplit, Change.value?_eq_some_iff.mpr rfl, ?_⟩
    intro change hmem
    cases hchange : change.value? key with
    | none => rfl
    | some other =>
      obtain rfl := Change.value?_eq_some_iff.mp hchange
      exact absurd hmem (hnone other)

/-! ### What the program gets -/

theorem isName_encode {key : String} (hne : key ≠ "") (hplain : '=' ∉ key.toList) :
    Environment.IsName (Utf8.encode key) := by
  have hsign : Environment.equalsSign ∉ Utf8.encode key := fun hmem =>
    hplain ((Utf8.mem_encode_iff (a := '=') (by decide) (by decide) key).mp hmem)
  cases hbytes : Utf8.encode key with
  | nil => exact absurd (Utf8.encode_inj (hbytes.trans Utf8.encode_empty.symm)) hne
  | cons b rest =>
    refine ⟨b, rest, rfl, fun hmem => hsign ?_⟩
    rw [hbytes]
    exact List.mem_cons_of_mem b hmem

/-- A run of the program gets what the command tells about itself, and else what the parent has. It
finds the same when it looks a name up in the texts it is handed, and when it parts them. -/
structure Reaches (command : Command) (parent : Environment) (call : Call) : Prop where
  arguments : call.arguments = command.arguments
  values : ∀ name, call.environment.get? name =
    ((Utf8.decode? name).bind command.env?).or (parent.get? name)
  found : parent.Regular → ∀ name, Environment.IsName name →
    call.environment.found? name = call.environment.get? name
  parted : parent.Regular → ∀ name,
    (Environment.ofTexts call.environment.texts).get? name = call.environment.get? name

theorem reaches_call {command : Command} (world : World)
    (hnames : ∀ s ∈ command.settings, Environment.IsName (Utf8.encode s.1)) :
    command.Reaches world.environment (command.call world) := by
  constructor
  case arguments => rfl
  case values => exact command.get?_environment world.environment
  case found =>
    intro hparent name hname
    exact (command.regular_environment hparent hnames).found? hname
  case parted =>
    intro hparent name
    exact (command.regular_environment hparent hnames).get?_ofTexts name

theorem run_ok_iff {command : Command} {world : World} (h : command.refusal? world = none) :
    (command.run world).1 = .ok () ↔ (world.script.headD .idle).ending = .exited 0 := by
  rw [run_started h]
  constructor
  · intro hok
    by_contra hend
    rw [if_neg hend] at hok
    cases hok
  · intro hend
    exact if_pos hend

theorem run_failed {command : Command} {world : World} {ending : Ending}
    (h : command.refusal? world = none) (hend : (world.script.headD .idle).ending = ending)
    (hne : ending ≠ .exited 0) :
    (command.run world).1 = .error (.commandFailed command.text (statusText ending)) := by
  rw [run_started h, hend, if_neg hne]

/-- What a command tells about itself is what the program it runs gets. The run succeeds exactly if the
program ends with status zero, and it fails without running anything if the program cannot be started. -/
theorem child_gets_what_is_recorded (world : World)
    (hkeys : ∀ key value, .env key value ∈ changes → key ≠ "" ∧ '=' ∉ key.toList) :
    let command := (new environment directory subcommand).changeAll changes
    let ending := (world.script.headD .idle).ending
    command.arguments = subcommand :: changes.flatMap Change.arguments ∧
      (∀ key value, command.env? key = some value ↔
        ∃ before after, changes = before ++ .env key value :: after ∧
          ∀ other, .env key other ∉ after) ∧
      (∀ e, command.refusal? world = some e → command.run world =
        (.error (.spawn (Utf8.lossy command.program) e),
          world.complain ("harness: " ++ command.text))) ∧
      (command.refusal? world = none →
        (∃ call, (command.run world).2.calls = world.calls ++ [call] ∧
          command.Reaches world.environment call) ∧
        ((command.run world).1 = .ok () ↔ ending = .exited 0) ∧
        (∀ status, ending = .exited status → status ≠ 0 → (command.run world).1 =
          .error (.commandFailed command.text (String.ofList (digits status.toNat)))) ∧
        (ending = .killed →
          (command.run world).1 = .error (.commandFailed command.text "terminated"))) := by
  intro command ending
  have hnames : ∀ s ∈ command.settings, Environment.IsName (Utf8.encode s.1) := by
    intro s hs
    rw [settings_built] at hs
    obtain ⟨change, hchange, hsetting⟩ := List.mem_filterMap.mp hs
    cases change with
    | env key value =>
      obtain rfl := Option.some.inj hsetting
      obtain ⟨hne, hplain⟩ := hkeys key value hchange
      exact isName_encode hne hplain
    | _ => cases hsetting
  have hshown : ∀ e, command.refusal? world = some e → command.run world =
      (.error (.spawn (Utf8.lossy command.program) e),
        world.complain ("harness: " ++ command.text)) := fun e => run_refused
  refine ⟨arguments_built environment directory subcommand changes,
    fun key value => env?_built_eq_some_iff environment directory subcommand changes, hshown, ?_⟩
  intro hstarts
  have hcalls : (command.run world).2.calls = world.calls ++ [command.call world] := by
    rw [run_started hstarts]
    rfl
  refine ⟨⟨_, hcalls, reaches_call world hnames⟩, run_ok_iff hstarts, ?_, ?_⟩
  · intro status hend hstatus
    have hne : Ending.exited status ≠ .exited 0 := fun hzero => hstatus (Ending.exited.inj hzero)
    exact run_failed hstarts hend hne
  · intro hend
    exact run_failed hstarts hend nofun

/-- A process that was started with a variant, in a directory without files. -/
def variantWorld (ending : Ending) : World where
  tree := .bare [Utf8.encode "work"]
  directory := [Utf8.encode "work"]
  environment := .ofPairs
    ([Utf8.encode "LWTEST_VARIANT=9", Utf8.encode "PATH=/bin"].filterMap Environment.parted)
  programs := [Utf8.encode "cargo"]
  script := [⟨[], ending⟩]
  calls := []
  errors := ""
  now := ⟨0, 0⟩

def variantChanges : List Change :=
  [.env variantVariable (Utf8.encode "1"), .args ["-p", "lwtest-a"],
    .env variantVariable (Utf8.encode "2"), .release true]

/-- The later of two variants is the one that is recorded and the one that the program finds. -/
theorem later_variant_handed_over :
    let world := variantWorld (.exited 101)
    let command := (new world.environment (Utf8.encode "/work") "build").changeAll variantChanges
    command.env? variantVariable = some (Utf8.encode "2") ∧
      (∃ call, (command.run world).2.calls = [call] ∧
        call.arguments = ["build", "-p", "lwtest-a", "--release"] ∧
        call.environment.found? (Utf8.encode variantVariable) = some (Utf8.encode "2") ∧
        call.environment.found? (Utf8.encode "PATH") = some (Utf8.encode "/bin")) ∧
      (command.run world).1 =
        .error (.commandFailed "cargo build -p lwtest-a --release" "101") := by
  intro world command
  have hparent : world.environment.Regular := Environment.regular_of_texts _
  have hkeys : ∀ key value, .env key value ∈ variantChanges → key ≠ "" ∧ '=' ∉ key.toList := by
    intro key value h
    have hkey : key = variantVariable := by
      simp only [variantChanges, List.mem_cons, Change.env.injEq, reduceCtorEq, List.not_mem_nil,
        or_false, false_or] at h
      rcases h with ⟨rfl, -⟩ | ⟨rfl, -⟩
      · rfl
      · rfl
    rw [hkey]
    exact ⟨by decide, by decide⟩
  obtain ⟨harguments, hrecorded, -, hstarted⟩ := child_gets_what_is_recorded world.environment
    (Utf8.encode "/work") "build" variantChanges world hkeys
  have hstarts : command.refusal? world = none := by decide +kernel
  obtain ⟨⟨call, hcalls, hreaches⟩, -, hstatus, -⟩ := hstarted hstarts
  have hvariant : command.env? variantVariable = some (Utf8.encode "2") := by
    rw [hrecorded]
    refine ⟨variantChanges.take 2, variantChanges.drop 3, rfl, ?_⟩
    intro other hmem
    simp [variantChanges] at hmem
  have hfound (key : String) (hne : key ≠ "") (hplain : '=' ∉ key.toList) :
      call.environment.found? (Utf8.encode key) =
        (command.env? key).or (world.environment.named? key) := by
    rw [hreaches.found hparent _ (isName_encode hne hplain), hreaches.values, Utf8.decode?_encode,
      Option.bind_some]
    rfl
  refine ⟨hvariant, ⟨call, hcalls, ?_, ?_, ?_⟩, ?_⟩
  · rw [hreaches.arguments, harguments]
    rfl
  · rw [hfound variantVariable (by decide) (by decide), hvariant]
    rfl
  · rw [hfound "PATH" (by decide) (by decide)]
    decide +kernel
  · have hanswer := hstatus 101 rfl (by decide)
    rw [hanswer]
    decide +kernel

end Command
end LoaderBench.Staging
