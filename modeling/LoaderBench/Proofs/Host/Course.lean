import LoaderBench.Host.Outcome
import LoaderBench.Proofs.Loader.Calls

/-!
# The course of a run

A run goes one of six ways, each under a condition on target and loader that excludes the others. The
main statement says which outcome and which loader calls belong to each, and that the library is
released once after a successful load and never otherwise. The failure told of a missing symbol is the
one of the look-up: it is taken before the library is released, and the release may fail as well.
-/

namespace LoaderBench.Host

open LoaderBench.Loader

def fixtureSymbol : Bytes := Utf8.encode Fixture.idSymbol

/-- What is told of releasing an image: nothing, or the failure. -/
def releaseFailure (m : Machine) (image : Image) : Option Failure :=
  if image.closeResult = 0 then none else some (m.failureOf releaseApi image.closeMishap)

/-- The calls of a run that finds no function: the library is released all the same. -/
def unresolvedCalls (name : Bytes) : List Event :=
  [.dlopen name Machine.openFlags, .dlsym name fixtureSymbol, .dlclose name]

/-- The calls of a run that finds the function. -/
def completedCalls (name : Bytes) : List Event :=
  [.dlopen name Machine.openFlags, .dlsym name fixtureSymbol, .call fixtureSymbol, .dlclose name]

/-- The outcomes that a run can have, with the loader calls that lead to them. -/
inductive Course (target : Target) (m : Machine) : Except Error Completed → List Event → Prop where
  | empty (hn : target.bytes = []) :
    Course target m
      (.error (.load target.mode ⟨loadApi, noSuchFile, some "empty library path"⟩)) []
  | nul (h0 : 0 ∈ target.bytes) :
    Course target m
      (.error (.load target.mode
        ⟨loadApi, invalidArgument, some "library name contains a NUL byte"⟩)) []
  | absent (hn : Nameable target.bytes) (hi : m.image? target.bytes = none) :
    Course target m (.error (.load target.mode (m.failureOf loadApi m.openMishap)))
      [.dlopen target.bytes Machine.openFlags]
  | unresolved (image : Image) (hn : Nameable target.bytes)
      (hi : m.image? target.bytes = some image) (hs : image.symbols.lookup fixtureSymbol = none) :
    Course target m
      (.error (.resolve Fixture.idSymbol (m.failureOf resolveApi image.lookupMishap)))
      (unresolvedCalls target.bytes)
  | nullPointer (image : Image) (hn : Nameable target.bytes)
      (hi : m.image? target.bytes = some image)
      (hs : image.symbols.lookup fixtureSymbol = some none) :
    Course target m (.error (.resolve Fixture.idSymbol (m.failureOf resolveApi .silent)))
      (unresolvedCalls target.bytes)
  | completed (image : Image) (fixtureId : Int32) (hn : Nameable target.bytes)
      (hi : m.image? target.bytes = some image)
      (hs : image.symbols.lookup fixtureSymbol = some (some fixtureId)) :
    Course target m (.ok ⟨fixtureId, releaseFailure m image⟩) (completedCalls target.bytes)

/-! ### Releases -/

/-- Whether the loader hands out a library for a target. -/
def Opens (target : Target) (m : Machine) : Prop :=
  Nameable target.bytes ∧ (m.image? target.bytes).isSome

instance (target : Target) (m : Machine) : Decidable (Opens target m) :=
  inferInstanceAs (Decidable (_ ∧ _))

/-- Whether a call gives a library back. -/
def isRelease : Event → Bool
  | .dlclose _ => true
  | _ => false

theorem countP_isRelease_of_course {target : Target} {m : Machine} {outcome : Except Error Completed}
    {calls : List Event} (hc : Course target m outcome calls) :
    calls.countP isRelease = if Opens target m then 1 else 0 := by
  cases hc with
  | empty hn =>
    have ho : ¬ Opens target m := fun ho => ho.1.1 hn
    rw [if_neg ho]
    rfl
  | nul h0 =>
    have ho : ¬ Opens target m := fun ho => ho.1.2 h0
    rw [if_neg ho]
    rfl
  | absent hn hi =>
    have ho : ¬ Opens target m := by simp [Opens, hi]
    rw [if_neg ho]
    rfl
  | unresolved image hn hi hs =>
    have ho : Opens target m := ⟨hn, by simp [hi]⟩
    rw [if_pos ho]
    rfl
  | nullPointer image hn hi hs =>
    have ho : Opens target m := ⟨hn, by simp [hi]⟩
    rw [if_pos ho]
    rfl
  | completed image fixtureId hn hi hs =>
    have ho : Opens target m := ⟨hn, by simp [hi]⟩
    rw [if_pos ho]
    rfl

/-! ### Runs that open no library -/

theorem run_of_load_error (target : Target) (m : Machine) {failure : Failure}
    (h : (Library.load target.bytes m).1 = .error failure) :
    run target m = (.error (.load target.mode failure), (Library.load target.bytes m).2) := by
  cases hl : Library.load target.bytes m with
  | mk result m' =>
    rw [hl] at h
    simp only at h
    subst h
    simp only [run, hl]

/-! ### Runs that open one -/

theorem run_of_load_ok (target : Target) (m : Machine) {image : Image}
    (h : (Library.load target.bytes m).1 = .ok ⟨image⟩) :
    run target m =
      let m₁ := (Library.load target.bytes m).2
      let m₂ := (Library.function ⟨image⟩ fixtureSymbol m₁).2
      match (Library.function ⟨image⟩ fixtureSymbol m₁).1 with
      | .error failure =>
        (.error (.resolve Fixture.idSymbol failure), Library.drop ⟨image⟩ m₂)
      | .ok function =>
        (.ok ⟨(function.call m₂).1, failureOf (Library.close ⟨image⟩ (function.call m₂).2).1⟩,
          (Library.close ⟨image⟩ (function.call m₂).2).2) := by
  cases hl : Library.load target.bytes m with
  | mk result m₁ =>
    rw [hl] at h
    simp only at h
    subst h
    cases hf : Library.function ⟨image⟩ fixtureSymbol m₁ with
    | mk found m₂ =>
      simp only [fixtureSymbol] at hf
      cases found with
      | error failure => simp only [run, hl, hf, fixtureSymbol]
      | ok function => simp only [run, hl, hf, fixtureSymbol]

theorem sameLoader_run (target : Target) (m : Machine) : (run target m).2.SameLoader m := by
  have hload := Library.sameLoader_load target.bytes m
  cases hl : (Library.load target.bytes m).1 with
  | error failure =>
    rw [run_of_load_error target m hl]
    exact hload
  | ok library =>
    have hfun := (library.sameLoader_function fixtureSymbol _).trans hload
    rw [run_of_load_ok target m hl]
    dsimp only
    split
    · exact (library.sameLoader_drop _).trans hfun
    · exact (library.sameLoader_close _).trans ((sameLoader_call _ _).trans hfun)

theorem course_of_image {target : Target} {m : Machine} {image : Image}
    (hn : Nameable target.bytes) (hi : m.image? target.bytes = some image) :
    ∃ calls, (run target m).2.trace = m.trace ++ calls ∧ Course target m (run target m).1 calls := by
  have hname : image.name = target.bytes := Machine.name_of_image? hi
  have hload := Library.sameLoader_load target.bytes m
  have htrace := Library.trace_load hn m
  rw [run_of_load_ok target m (Library.load_present hn hi)]
  generalize (Library.load target.bytes m).2 = m₁ at hload htrace
  have hfun := (Library.sameLoader_function ⟨image⟩ fixtureSymbol m₁).trans hload
  have hftrace := Library.trace_function ⟨image⟩ fixtureSymbol m₁
  have hresult := Library.function_result ⟨image⟩ fixtureSymbol m₁
  rw [htrace] at hftrace
  dsimp only at hftrace hresult ⊢
  generalize (Library.function ⟨image⟩ fixtureSymbol m₁).2 = m₂ at hfun hftrace
  cases hs : image.symbols.lookup fixtureSymbol with
  | none =>
    simp only [hs] at hresult
    refine ⟨unresolvedCalls target.bytes, ?_, ?_⟩
    · simp [hresult, Library.trace_drop, hftrace, hname, unresolvedCalls]
    · simp only [hresult, hload.failureOf_eq]
      exact .unresolved image hn hi hs
  | some pointer =>
    cases pointer with
    | none =>
      simp only [hs] at hresult
      refine ⟨unresolvedCalls target.bytes, ?_, ?_⟩
      · simp [hresult, Library.trace_drop, hftrace, hname, unresolvedCalls]
      · simp only [hresult, hload.failureOf_eq]
        exact .nullPointer image hn hi hs
    | some fixtureId =>
      simp only [hs] at hresult
      have hreleased : failureOf (Library.close ⟨image⟩
          (Function.call ⟨fixtureSymbol, fixtureId⟩ m₂).2).1 = releaseFailure m image := by
        rw [Library.close_result, ((sameLoader_call _ m₂).trans hfun).failureOf_eq]
        simp only [releaseFailure]
        split <;> rfl
      refine ⟨completedCalls target.bytes, ?_, ?_⟩
      · simp [hresult, Library.trace_close, trace_call, hftrace, hname, completedCalls]
      · simp only [hresult, hreleased]
        exact .completed image fixtureId hn hi hs

theorem course_of_run (target : Target) (m : Machine) :
    ∃ calls, (run target m).2.trace = m.trace ++ calls ∧ Course target m (run target m).1 calls := by
  by_cases hempty : target.bytes = []
  · have hl : Library.load target.bytes m = _ := hempty ▸ Library.load_empty m
    rw [run_of_load_error target m (congrArg Prod.fst hl), hl]
    exact ⟨[], (List.append_nil _).symm, .empty hempty⟩
  by_cases h0 : 0 ∈ target.bytes
  · have hl := Library.load_nul h0 m
    rw [run_of_load_error target m (congrArg Prod.fst hl), hl]
    exact ⟨[], (List.append_nil _).symm, .nul h0⟩
  have hn : Nameable target.bytes := ⟨hempty, h0⟩
  cases hi : m.image? target.bytes with
  | none =>
    rw [run_of_load_error target m (Library.load_absent hn hi)]
    exact ⟨_, Library.trace_load hn m, .absent hn hi⟩
  | some image => exact course_of_image hn hi

/-- Every run follows its course, and gives the library back exactly once if it got one. -/
theorem run_releases_once (target : Target) (m : Machine) :
    ∃ calls, (run target m).2.trace = m.trace ++ calls ∧
      Course target m (run target m).1 calls ∧
      calls.countP isRelease = if Opens target m then 1 else 0 := by
  obtain ⟨calls, htrace, hcourse⟩ := course_of_run target m
  exact ⟨calls, htrace, hcourse, countP_isRelease_of_course hcourse⟩

end LoaderBench.Host
