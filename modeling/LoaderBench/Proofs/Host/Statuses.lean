import LoaderBench.Proofs.Host.SideChannel

/-!
# How a program ends

A program makes one call on its host, which its arguments decide: the first of them is the path to
load, or there are none to be had. What it prints, how it ends and which loader calls it makes follow
from that call and the loader. The exit status tells how far the call got: whether the loader handed
out a library, whether the symbol was found in it, and whether the function was called.
-/

namespace LoaderBench.Host

open LoaderBench.FileTree LoaderBench.Loader LoaderBench.Log

variable {target : Target} {m : Machine} {outcome : Except Error Completed} {calls : List Event}

/-! ### Handles -/

/-- What the loader answers to opening a name. A name that cannot be handed over gets no answer. -/
def handle? (m : Machine) (name : Bytes) : Option Image :=
  if Nameable name then (m.dlopen name Machine.openFlags).1 else none

theorem dlopen_fst (m : Machine) (name : Bytes) (flags : Nat) :
    (m.dlopen name flags).1 = m.image? name := by
  have himages : (m.noting (.dlopen name flags)).images.find? (·.name == name) = m.image? name := rfl
  simp only [Machine.dlopen, himages]
  cases m.image? name <;> rfl

theorem dlsym_fst (m : Machine) (image : Image) (symbol : Bytes) :
    (m.dlsym image symbol).1 = (image.symbols.lookup symbol).join := by
  simp only [Machine.dlsym]
  cases image.symbols.lookup symbol <;> rfl

theorem handle?_of_nameable {name : Bytes} (hn : Nameable name) : handle? m name = m.image? name := by
  rw [handle?, if_pos hn, dlopen_fst]

theorem handle?_of_not_nameable {name : Bytes} (hn : ¬ Nameable name) : handle? m name = none :=
  if_neg hn

/-! ### What an outcome tells -/

/-- The ways in which a load can end: without a library, without the function, or with its call. -/
inductive Ending (target : Target) (m : Machine) : Exit → List Event → Prop where
  | unloaded (calls : List Event) (hh : handle? m target.bytes = none)
      (hc : .call fixtureSymbol ∉ calls) : Ending target m .loadFailed calls
  | unresolved (calls : List Event) (image : Image) (hh : handle? m target.bytes = some image)
      (hs : (m.dlsym image fixtureSymbol).1 = none) (hc : .call fixtureSymbol ∉ calls) :
    Ending target m .resolveFailed calls
  | called (calls : List Event) (image : Image) (fixtureId : Int32)
      (hh : handle? m target.bytes = some image)
      (hs : (m.dlsym image fixtureSymbol).1 = some fixtureId) (hc : .call fixtureSymbol ∈ calls) :
    Ending target m .success calls

theorem Course.ending (hc : Course target m outcome calls) :
    Ending target m (exitOf outcome) calls := by
  cases hc with
  | empty hn => exact .unloaded _ (handle?_of_not_nameable fun hname => hname.1 hn) nofun
  | nul h0 => exact .unloaded _ (handle?_of_not_nameable fun hname => hname.2 h0) nofun
  | absent hn hi =>
    have hh : handle? m target.bytes = none := (handle?_of_nameable hn).trans hi
    exact .unloaded _ hh (by simp)
  | unresolved image hn hi hs =>
    have hh : handle? m target.bytes = some image := (handle?_of_nameable hn).trans hi
    refine .unresolved _ image hh ?_ (by simp [unresolvedCalls])
    rw [dlsym_fst, hs]
    rfl
  | nullPointer image hn hi hs =>
    have hh : handle? m target.bytes = some image := (handle?_of_nameable hn).trans hi
    refine .unresolved _ image hh ?_ (by simp [unresolvedCalls])
    rw [dlsym_fst, hs]
    rfl
  | completed image fixtureId hn hi hs =>
    have hh : handle? m target.bytes = some image := (handle?_of_nameable hn).trans hi
    refine .called _ image fixtureId hh ?_ (by simp [completedCalls])
    rw [dlsym_fst, hs]
    rfl

namespace Ending

variable {exit : Exit}

theorem loadFailed_iff (h : Ending target m exit calls) :
    exit.code = 10 ↔ handle? m target.bytes = none := by
  cases h with
  | unloaded calls hh hc => exact iff_of_true rfl hh
  | unresolved calls image hh hs hc => simp [hh, Exit.code]
  | called calls image fixtureId hh hs hc => simp [hh, Exit.code]

theorem resolveFailed_iff (h : Ending target m exit calls) :
    exit.code = 11 ↔ ∃ image, handle? m target.bytes = some image ∧
      (m.dlsym image fixtureSymbol).1 = none := by
  cases h with
  | unloaded calls hh hc => simp [hh, Exit.code]
  | unresolved calls image hh hs hc => exact iff_of_true rfl ⟨image, hh, hs⟩
  | called calls image fixtureId hh hs hc => simp [hh, hs, Exit.code]

theorem success_iff (h : Ending target m exit calls) :
    exit.code = 0 ↔ .call fixtureSymbol ∈ calls := by
  cases h with
  | unloaded calls hh hc => simp [hc, Exit.code]
  | unresolved calls image hh hs hc => simp [hc, Exit.code]
  | called calls image fixtureId hh hs hc => exact iff_of_true rfl hc

theorem not_usage (h : Ending target m exit calls) : exit.code ≠ 2 := by
  cases h <;> decide

end Ending

/-! ### What a program does -/

/-- The call that a program makes on its host. -/
def Program.call : Program → List Bytes → Call
  | .byPath, [] => .fail .usage
  | .byPath, path :: _ => .execute (.fullPath path)
  | .byName, _ => .execute .fixture

/-- What a call comes to over a loader, and the loader after it. -/
def comesTo (m : Machine) : Call → Except Error Completed × Machine
  | .execute target => run target m
  | .fail error => (.error error, m)

theorem outcome_eq_comesTo (s : Session) (call : Call) :
    (s.outcome call, s.machineAfter call) = comesTo s.machine call := by
  cases call <;> rfl

theorem output_prepare (name : String) (config : Config) (m : Machine) (tree : Tree)
    (directory : Place) : (prepare name config m tree directory).session.output = "" := by
  simp only [prepare]
  split
  · rfl
  · split <;> rfl

/-- What a program leaves is what its call comes to over the loader, and nothing else. -/
structure Ended.Tells (ended : Ended) (r : Except Error Completed × Machine) : Prop where
  exit : ended.exit = exitOf r.1
  output : ended.output = lineOf r.1 ++ "\n"
  trace : ended.trace = r.2.trace

theorem Program.run_tells (program : Program) (arguments : List Bytes) (around : Surroundings) :
    (program.run arguments around).Tells (comesTo around.machine (program.call arguments)) := by
  let prepared := prepare program.name (Config.ofPairs around.process around.environment.pairs)
    around.machine around.tree around.directory
  have hmachine : prepared.session.machine = around.machine := machine_prepare ..
  have houtput : prepared.session.output = "" := output_prepare ..
  have htells (call : Call) (ended : Ended)
      (he : ended.exit = (prepared.session.perform around.now call).1)
      (ho : ended.output = (prepared.session.perform around.now call).2.output)
      (ht : ended.trace = (prepared.session.perform around.now call).2.machine.trace) :
      ended.Tells (comesTo around.machine call) := by
    rw [← hmachine, ← outcome_eq_comesTo]
    refine ⟨he.trans (Session.exit_perform ..), ?_, ?_⟩
    · rw [ho, Session.output_perform, houtput, String.empty_append]
    · rw [ht, Session.machine_perform]
  cases program with
  | byPath =>
    cases arguments with
    | nil => exact htells (.fail .usage) _ rfl rfl rfl
    | cons path further => exact htells (.execute (.fullPath path)) _ rfl rfl rfl
  | byName => exact htells (.execute .fixture) _ rfl rfl rfl

/-- What a program leaves that has loaded a target: the answer of one run, and a status that tells how
far the run got. -/
structure Ended.Loads (ended : Ended) (target : Target) (m : Machine) : Prop where
  told : ended.Tells (run target m)
  attempted : ended.exit.code ≠ 2
  loadFailed : ended.exit.code = 10 ↔ target.bytes = [] ∨ handle? m target.bytes = none
  resolveFailed : ended.exit.code = 11 ↔ ∃ image, handle? m target.bytes = some image ∧
    (m.dlsym image fixtureSymbol).1 = none
  success : ended.exit.code = 0 ↔ ∃ calls, ended.trace = m.trace ++ calls ∧
    .call fixtureSymbol ∈ calls

theorem Ended.Tells.loads {ended : Ended} (h : ended.Tells (run target m)) :
    ended.Loads target m := by
  obtain ⟨calls, htrace, hcourse⟩ := course_of_run target m
  have hending := hcourse.ending
  rw [← h.exit] at hending
  have htold : ended.trace = m.trace ++ calls := h.trace.trans htrace
  refine ⟨h, hending.not_usage, ?_, hending.resolveFailed_iff, ?_⟩
  · rw [hending.loadFailed_iff]
    refine ⟨.inr, ?_⟩
    rintro (hempty | hnone)
    · exact handle?_of_not_nameable fun hname => hname.1 hempty
    · exact hnone
  · rw [hending.success_iff]
    constructor
    · exact fun hcall => ⟨calls, htold, hcall⟩
    · rintro ⟨others, hothers, hcall⟩
      rw [htold] at hothers
      rwa [List.append_cancel_left hothers]

/-- One program loads its first argument, whatever that is and whatever follows it, and ends with status
2 exactly if there is none; the other loads the fixture library, whatever its arguments are. Over one
loader a program prints the same, ends with the same status and makes the same loader calls, whatever
its environment, its files and the time are. -/
theorem status_tells_how_far (arguments : List Bytes) (around : Surroundings) :
    ((Program.byPath.run arguments around).exit.code = 2 ∧
        (Program.byPath.run arguments around).trace = around.machine.trace ↔ arguments = []) ∧
      (∀ path further, arguments = path :: further →
        (Program.byPath.run arguments around).Loads (.fullPath path) around.machine) ∧
      (Program.byName.run arguments around).Loads .fixture around.machine ∧
      ∀ (program : Program) (around' : Surroundings), around'.machine = around.machine →
        (program.run arguments around').exit = (program.run arguments around).exit ∧
          (program.run arguments around').output = (program.run arguments around).output ∧
          (program.run arguments around').trace = (program.run arguments around).trace := by
  have hpath := Program.byPath.run_tells arguments around
  refine ⟨?_, ?_, (Program.byName.run_tells arguments around).loads, ?_⟩
  · cases arguments with
    | nil => exact iff_of_true ⟨congrArg Exit.code hpath.exit, hpath.trace⟩ rfl
    | cons path further =>
      have hloads : (Program.byPath.run (path :: further) around).Loads (.fullPath path)
        around.machine := hpath.loads
      exact iff_of_false (fun h => hloads.attempted h.1) nofun
  · rintro path further rfl
    exact hpath.loads
  · intro program around' hsame
    have h := program.run_tells arguments around
    have h' := program.run_tells arguments around'
    rw [hsame] at h'
    exact ⟨h'.exit.trans h.exit.symm, h'.output.trans h.output.symm, h'.trace.trans h.trace.symm⟩

end LoaderBench.Host
