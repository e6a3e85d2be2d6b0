import LoaderBench.Loader.Holder
import LoaderBench.Proofs.Loader.Calls

/-!
# Sequences of operations on libraries

`Does` says all that one operation can do: what it answers, which event it leaves in the trace, and
what is held afterwards. `Run` is a sequence of operations that ownership permits, with their answers.
The loader stays the same through a run, apart from its number, its message and its trace.
-/

namespace LoaderBench.Loader

variable {m : Machine} {a b c : Holder} {operation : Operation} {answer : Answer}
  {transcript : List (Operation × Answer)} {events : List Event}

namespace Holder

theorem getElem?_of_holding? {handle : Nat} {held : Holding} (h : a.holding? handle = some held) :
    a.holdings[handle]? = some (some held) :=
  Option.join_eq_some_iff.mp h

theorem mem_of_holding? {handle : Nat} {held : Holding} (h : a.holding? handle = some held) :
    some held ∈ a.holdings :=
  List.mem_of_getElem? (getElem?_of_holding? h)

/-! ### One operation -/

/-- What an operation does. The loader that it leaves is told apart (`Steps`). -/
inductive Does (a : Holder) : Operation → Answer → List Event → List (Option Holding) → Prop where
  | empty : Does a (.load []) (.failed ⟨loadApi, noSuchFile, some "empty library path"⟩) [] a.holdings
  | nul {name : Bytes} (h0 : 0 ∈ name) :
    Does a (.load name)
      (.failed ⟨loadApi, invalidArgument, some "library name contains a NUL byte"⟩) [] a.holdings
  | absent {name : Bytes} (hn : Nameable name) (hi : a.machine.image? name = none) :
    Does a (.load name) (.failed (a.machine.failureOf loadApi a.machine.openMishap))
      [.dlopen name Machine.openFlags] a.holdings
  | opened {name : Bytes} {image : Image} (hn : Nameable name)
      (hi : a.machine.image? name = some image) :
    Does a (.load name) (.opened a.holdings.length) [.dlopen name Machine.openFlags]
      (a.holdings ++ [some ⟨⟨image⟩, []⟩])
  | missing {handle : Nat} {symbol : Bytes} {held : Holding} (hh : a.holding? handle = some held)
      (hs : held.library.image.symbols.lookup symbol = none) :
    Does a (.function handle symbol)
      (.failed (a.machine.failureOf resolveApi held.library.image.lookupMishap))
      [.dlsym held.library.image.name symbol] a.holdings
  | null {handle : Nat} {symbol : Bytes} {held : Holding} (hh : a.holding? handle = some held)
      (hs : held.library.image.symbols.lookup symbol = some none) :
    Does a (.function handle symbol) (.failed (a.machine.failureOf resolveApi .silent))
      [.dlsym held.library.image.name symbol] a.holdings
  | found {handle : Nat} {symbol : Bytes} {held : Holding} {result : Int32}
      (hh : a.holding? handle = some held)
      (hs : held.library.image.symbols.lookup symbol = some (some result)) :
    Does a (.function handle symbol) (.found ⟨symbol, result⟩)
      [.dlsym held.library.image.name symbol]
      (a.holdings.set handle (some { held with functions := ⟨symbol, result⟩ :: held.functions }))
  | called {handle : Nat} {function : Function} {held : Holding}
      (hh : a.holding? handle = some held) (hf : function ∈ held.functions) :
    Does a (.call handle function) (.returned function.result) [.call function.symbol] a.holdings
  | closed {handle : Nat} {held : Holding} (hh : a.holding? handle = some held)
      (hr : held.library.image.closeResult = 0) :
    Does a (.close handle) .done [.dlclose held.library.image.name] (a.holdings.set handle none)
  | unclosed {handle : Nat} {held : Holding} (hh : a.holding? handle = some held)
      (hr : held.library.image.closeResult ≠ 0) :
    Does a (.close handle)
      (.failed (a.machine.failureOf releaseApi held.library.image.closeMishap))
      [.dlclose held.library.image.name] (a.holdings.set handle none)
  | dropped {handle : Nat} {held : Holding} (hh : a.holding? handle = some held) :
    Does a (.drop handle) .done [.dlclose held.library.image.name] (a.holdings.set handle none)

/-- A step from one state of a program to the next, with the events it leaves. -/
structure Steps (a : Holder) (operation : Operation) (answer : Answer) (events : List Event)
    (b : Holder) : Prop where
  does : a.Does operation answer events b.holdings
  loader : b.machine.SameLoader a.machine
  trace : b.machine.trace = a.machine.trace ++ events

theorem steps_load {name : Bytes} (h : a.act (.load name) = some (answer, b)) :
    ∃ events, a.Steps (.load name) answer events b := by
  have hsame := Library.sameLoader_load name a.machine
  by_cases hempty : name = []
  · subst hempty
    rw [act, Library.load_empty] at h
    obtain ⟨rfl, rfl⟩ := Prod.mk.inj (Option.some.inj h)
    exact ⟨[], .empty, .refl _, (List.append_nil _).symm⟩
  by_cases h0 : 0 ∈ name
  · rw [act, Library.load_nul h0] at h
    obtain ⟨rfl, rfl⟩ := Prod.mk.inj (Option.some.inj h)
    exact ⟨[], .nul h0, .refl _, (List.append_nil _).symm⟩
  have hn : Nameable name := ⟨hempty, h0⟩
  have htrace := Library.trace_load hn a.machine
  cases hl : Library.load name a.machine with
  | mk result m' =>
    rw [hl] at hsame htrace
    cases hi : a.machine.image? name with
    | none =>
      have hresult := Library.load_absent hn hi
      rw [hl] at hresult
      obtain rfl : result = _ := hresult
      rw [act, hl] at h
      obtain ⟨rfl, rfl⟩ := Prod.mk.inj (Option.some.inj h)
      exact ⟨_, .absent hn hi, hsame, htrace⟩
    | some image =>
      have hresult := Library.load_present hn hi
      rw [hl] at hresult
      obtain rfl : result = _ := hresult
      rw [act, hl] at h
      obtain ⟨rfl, rfl⟩ := Prod.mk.inj (Option.some.inj h)
      exact ⟨_, .opened hn hi, hsame, htrace⟩

theorem steps_function {handle : Nat} {symbol : Bytes}
    (h : a.act (.function handle symbol) = some (answer, b)) :
    ∃ events, a.Steps (.function handle symbol) answer events b := by
  obtain ⟨held, hh, hact⟩ := Option.map_eq_some_iff.mp h
  have hsame := held.library.sameLoader_function symbol a.machine
  have htrace := held.library.trace_function symbol a.machine
  have hresult := held.library.function_result symbol a.machine
  cases hf : held.library.function symbol a.machine with
  | mk result m' =>
    rw [hf] at hsame htrace hresult
    dsimp only at hresult
    rw [hf] at hact
    cases hs : held.library.image.symbols.lookup symbol with
    | none =>
      rw [hs] at hresult
      subst hresult
      obtain ⟨rfl, rfl⟩ := Prod.mk.inj hact
      exact ⟨_, .missing hh hs, hsame, htrace⟩
    | some target =>
      cases target with
      | none =>
        rw [hs] at hresult
        subst hresult
        obtain ⟨rfl, rfl⟩ := Prod.mk.inj hact
        exact ⟨_, .null hh hs, hsame, htrace⟩
      | some number =>
        rw [hs] at hresult
        subst hresult
        obtain ⟨rfl, rfl⟩ := Prod.mk.inj hact
        exact ⟨_, .found hh hs, hsame, htrace⟩

theorem steps_call {handle : Nat} {function : Function}
    (h : a.act (.call handle function) = some (answer, b)) :
    ∃ events, a.Steps (.call handle function) answer events b := by
  obtain ⟨held, hh, hact⟩ := Option.bind_eq_some_iff.mp h
  split at hact
  · rename_i hf
    obtain ⟨rfl, rfl⟩ := Prod.mk.inj (Option.some.inj hact)
    exact ⟨_, .called hh hf, sameLoader_call function a.machine, trace_call function a.machine⟩
  · cases hact

theorem steps_close {handle : Nat} (h : a.act (.close handle) = some (answer, b)) :
    ∃ events, a.Steps (.close handle) answer events b := by
  obtain ⟨held, hh, hact⟩ := Option.map_eq_some_iff.mp h
  have hsame := held.library.sameLoader_close a.machine
  have htrace := held.library.trace_close a.machine
  have hresult := held.library.close_result a.machine
  cases hc : held.library.close a.machine with
  | mk result m' =>
    rw [hc] at hsame htrace hresult
    dsimp only at hresult
    rw [hc] at hact
    by_cases hr : held.library.image.closeResult = 0
    · rw [if_pos hr] at hresult
      subst hresult
      obtain ⟨rfl, rfl⟩ := Prod.mk.inj hact
      exact ⟨_, .closed hh hr, hsame, htrace⟩
    · rw [if_neg hr] at hresult
      subst hresult
      obtain ⟨rfl, rfl⟩ := Prod.mk.inj hact
      exact ⟨_, .unclosed hh hr, hsame, htrace⟩

theorem steps_drop {handle : Nat} (h : a.act (.drop handle) = some (answer, b)) :
    ∃ events, a.Steps (.drop handle) answer events b := by
  obtain ⟨held, hh, hact⟩ := Option.map_eq_some_iff.mp h
  obtain ⟨rfl, rfl⟩ := Prod.mk.inj hact
  exact ⟨_, .dropped hh, held.library.sameLoader_drop a.machine, held.library.trace_drop a.machine⟩

theorem steps_of_act (h : a.act operation = some (answer, b)) :
    ∃ events, a.Steps operation answer events b := by
  cases operation with
  | load name => exact steps_load h
  | function handle symbol => exact steps_function h
  | call handle function => exact steps_call h
  | close handle => exact steps_close h
  | drop handle => exact steps_drop h

/-! ### Sequences -/

/-- A sequence of operations that ownership permits, each with its answer. -/
inductive Run : Holder → List (Operation × Answer) → Holder → Prop where
  | none {a : Holder} : Run a [] a
  | next {a b c : Holder} {operation : Operation} {answer : Answer}
      {transcript : List (Operation × Answer)} :
      a.act operation = some (answer, b) → Run b transcript c →
      Run a ((operation, answer) :: transcript) c

theorem Run.sameLoader (h : Run a transcript b) : b.machine.SameLoader a.machine := by
  induction h with
  | none => exact .refl _
  | next hact _ ih =>
    obtain ⟨events, hsteps⟩ := steps_of_act hact
    exact ih.trans hsteps.loader

end Holder
end LoaderBench.Loader
