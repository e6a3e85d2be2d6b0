import LoaderBench.Loader.Library

/-!
# One library call

What each call on a library answers, which event it leaves, and what it keeps. Calls that may fail
fetch leftover messages away first; therefore an answer depends on the libraries and on the ways of
failing alone (`SameLoader`), and never on the number or the message that earlier calls left behind.
-/

namespace LoaderBench.Loader

/-! ### Loaders apart from their past -/

/-- The same libraries and the same ways of failing. Number, message and trace may differ. -/
structure Machine.SameLoader (m m' : Machine) : Prop where
  images : m.images = m'.images
  openMishap : m.openMishap = m'.openMishap
  fetchNumber : m.fetchNumber = m'.fetchNumber

namespace Machine

theorem SameLoader.refl (m : Machine) : m.SameLoader m := ⟨rfl, rfl, rfl⟩

theorem SameLoader.trans {m m' m'' : Machine} (h : m.SameLoader m') (h' : m'.SameLoader m'') :
    m.SameLoader m'' :=
  ⟨h.images.trans h'.images, h.openMishap.trans h'.openMishap, h.fetchNumber.trans h'.fetchNumber⟩

theorem sameLoader_suffer (m : Machine) (mishap : Mishap) : (m.suffer mishap).SameLoader m :=
  ⟨rfl, rfl, rfl⟩

theorem sameLoader_noting (m : Machine) (event : Event) : (m.noting event).SameLoader m :=
  ⟨rfl, rfl, rfl⟩

theorem sameLoader_dlerror (m : Machine) : m.dlerror.2.SameLoader m := ⟨rfl, rfl, rfl⟩

theorem sameLoader_dlopen (m : Machine) (name : Bytes) (flags : Nat) :
    (m.dlopen name flags).2.SameLoader m := by
  simp only [dlopen]
  split
  · exact sameLoader_noting m _
  · exact (sameLoader_suffer _ _).trans (sameLoader_noting m _)

theorem sameLoader_dlsym (m : Machine) (image : Image) (symbol : Bytes) :
    (m.dlsym image symbol).2.SameLoader m := by
  simp only [dlsym]
  split
  · exact sameLoader_noting m _
  · exact (sameLoader_suffer _ _).trans (sameLoader_noting m _)

theorem sameLoader_dlclose (m : Machine) (image : Image) : (m.dlclose image).2.SameLoader m := by
  simp only [dlclose]
  split
  · exact sameLoader_noting m _
  · exact (sameLoader_suffer _ _).trans (sameLoader_noting m _)

def image? (m : Machine) (name : Bytes) : Option Image := m.images.find? (·.name == name)

theorem name_of_image? {m : Machine} {name : Bytes} {image : Image} (h : m.image? name = some image) :
    image.name = name := by
  have hp := List.find?_some h
  simpa using hp

theorem SameLoader.image?_eq {m m' : Machine} (h : m.SameLoader m') (name : Bytes) :
    m.image? name = m'.image? name := by
  simp only [image?, h.images]

/-- The failure that is told of a call which left `mishap`. A number that the call did not set is the
one that fetching messages leaves. -/
def failureOf (m : Machine) (api : String) (mishap : Mishap) : Failure :=
  ⟨api, mishap.number.getD m.fetchNumber, mishap.message.map messageText⟩

theorem SameLoader.failureOf_eq {m m' : Machine} (h : m.SameLoader m') (api : String)
    (mishap : Mishap) : m.failureOf api mishap = m'.failureOf api mishap := by
  simp only [failureOf, h.fetchNumber]

end Machine

/-! ### Failures -/

theorem sameLoader_lastFailure (api : String) (m : Machine) : (lastFailure api m).2.SameLoader m :=
  m.sameLoader_dlerror

/-- After messages were fetched away, a failure is told from what the failing call left, and from
nothing else. -/
theorem lastFailure_suffer (api : String) (m : Machine) (event : Event) (mishap : Mishap) :
    (lastFailure api ((m.dlerror.2.noting event).suffer mishap)).1 = m.failureOf api mishap := by
  simp [lastFailure, Machine.dlerror, Machine.noting, Machine.suffer, Machine.failureOf]

theorem lastFailure_noting (api : String) (m : Machine) (event : Event) :
    (lastFailure api (m.dlerror.2.noting event)).1 = m.failureOf api .silent := rfl

/-- The result of a call that answers null where it fails. -/
def answered {α β : Type} (api : String) (f : α → β) : Option α × Machine → Except Failure β × Machine
  | (some a, m) => (.ok (f a), m)
  | (none, m) => (.error (lastFailure api m).1, (lastFailure api m).2)

section

variable {α β : Type} (api : String) (f : α → β)

theorem trace_answered (r : Option α × Machine) : (answered api f r).2.trace = r.2.trace := by
  obtain ⟨a, m⟩ := r
  cases a <;> rfl

theorem sameLoader_answered (r : Option α × Machine) : (answered api f r).2.SameLoader r.2 := by
  obtain ⟨a, m⟩ := r
  cases a with
  | none => exact sameLoader_lastFailure api m
  | some a => exact Machine.SameLoader.refl m

end

/-! ### Loading -/

/-- A name that can be handed to the loader. -/
def Nameable (name : Bytes) : Prop := name ≠ [] ∧ 0 ∉ name

instance (name : Bytes) : Decidable (Nameable name) := inferInstanceAs (Decidable (_ ∧ _))

namespace Library

theorem load_empty (m : Machine) :
    load [] m = (.error ⟨loadApi, noSuchFile, some "empty library path"⟩, m) := rfl

theorem load_nul {name : Bytes} (h : 0 ∈ name) (m : Machine) :
    load name m = (.error ⟨loadApi, invalidArgument, some "library name contains a NUL byte"⟩, m) := by
  have hne : name ≠ [] := List.ne_nil_of_mem h
  simp [load, hne, h]

theorem load_nameable {name : Bytes} (h : Nameable name) (m : Machine) :
    load name m = answered loadApi Library.mk (m.dlerror.2.dlopen name Machine.openFlags) := by
  obtain ⟨hne, h0⟩ := h
  have hcontains : ¬ name.contains 0 = true := fun hc => h0 (List.contains_iff_mem.mp hc)
  unfold load
  rw [if_neg hne, if_neg hcontains]
  cases hopen : m.dlerror.2.dlopen name Machine.openFlags with
  | mk image m' =>
    simp only [Machine.dlerror] at hopen
    cases image with
    | none => simp only [Machine.dlerror, hopen, answered, lastFailure]
    | some image => simp only [Machine.dlerror, hopen, answered]

theorem load_present {name : Bytes} (h : Nameable name) {m : Machine} {image : Image}
    (hi : m.image? name = some image) : (load name m).1 = .ok ⟨image⟩ := by
  have hf : (m.dlerror.2.noting (.dlopen name Machine.openFlags)).images.find? (·.name == name) =
      some image := hi
  rw [load_nameable h]
  simp only [Machine.dlopen, hf, answered]

theorem load_absent {name : Bytes} (h : Nameable name) {m : Machine} (hi : m.image? name = none) :
    (load name m).1 = .error (m.failureOf loadApi m.openMishap) := by
  have hf : (m.dlerror.2.noting (.dlopen name Machine.openFlags)).images.find? (·.name == name) =
      none := hi
  rw [load_nameable h]
  simp only [Machine.dlopen, hf, answered]
  exact congrArg Except.error (lastFailure_suffer loadApi m _ m.openMishap)

theorem trace_load {name : Bytes} (h : Nameable name) (m : Machine) :
    (load name m).2.trace = m.trace ++ [.dlopen name Machine.openFlags] := by
  rw [load_nameable h, trace_answered]
  exact m.dlerror.2.trace_dlopen name Machine.openFlags

theorem sameLoader_load (name : Bytes) (m : Machine) : (load name m).2.SameLoader m := by
  by_cases h : Nameable name
  · have hopen := m.dlerror.2.sameLoader_dlopen name Machine.openFlags
    rw [load_nameable h]
    exact (sameLoader_answered _ _ _).trans (hopen.trans m.sameLoader_dlerror)
  -- A name that cannot be handed over reaches no call.
  · by_cases hne : name = []
    · subst hne
      exact Machine.SameLoader.refl m
    · have h0 : 0 ∈ name := Decidable.byContradiction fun h0 => h ⟨hne, h0⟩
      rw [load_nul h0]
      exact Machine.SameLoader.refl m

/-! ### Looking up -/

theorem function_eq (library : Library) (symbol : Bytes) (m : Machine) :
    library.function symbol m =
      answered resolveApi (Function.mk symbol) (m.dlerror.2.dlsym library.image symbol) := by
  unfold function
  cases hlookup : m.dlerror.2.dlsym library.image symbol with
  | mk result m' =>
    simp only [Machine.dlerror] at hlookup
    cases result with
    | none => simp only [Machine.dlerror, hlookup, answered, lastFailure]
    | some result => simp only [Machine.dlerror, hlookup, answered]

theorem function_result (library : Library) (symbol : Bytes) (m : Machine) :
    (library.function symbol m).1 =
      match library.image.symbols.lookup symbol with
      | some (some result) => .ok ⟨symbol, result⟩
      | some none => .error (m.failureOf resolveApi .silent)
      | none => .error (m.failureOf resolveApi library.image.lookupMishap) := by
  rw [function_eq]
  simp only [Machine.dlsym]
  cases hl : library.image.symbols.lookup symbol with
  | none => exact congrArg Except.error (lastFailure_suffer resolveApi m _ _)
  | some target =>
    cases target with
    -- A null pointer is no failure of the look-up, which leaves nothing to tell.
    | none => exact congrArg Except.error (lastFailure_noting resolveApi m _)
    | some result => rfl

theorem trace_function (library : Library) (symbol : Bytes) (m : Machine) :
    (library.function symbol m).2.trace = m.trace ++ [.dlsym library.image.name symbol] := by
  rw [function_eq, trace_answered]
  exact m.dlerror.2.trace_dlsym library.image symbol

theorem sameLoader_function (library : Library) (symbol : Bytes) (m : Machine) :
    (library.function symbol m).2.SameLoader m := by
  have hlookup := m.dlerror.2.sameLoader_dlsym library.image symbol
  rw [function_eq]
  exact (sameLoader_answered _ _ _).trans (hlookup.trans m.sameLoader_dlerror)

/-! ### Releasing -/

theorem close_eq (library : Library) (m : Machine) :
    library.close m =
      if library.image.closeResult = 0 then
        (.ok (), m.dlerror.2.noting (.dlclose library.image.name))
      else
        let m' := (m.dlerror.2.noting (.dlclose library.image.name)).suffer library.image.closeMishap
        (.error (lastFailure releaseApi m').1, (lastFailure releaseApi m').2) := by
  by_cases h : library.image.closeResult = 0
  · simp [close, Machine.dlclose, h]
  · simp [close, Machine.dlclose, h]

theorem close_result (library : Library) (m : Machine) :
    (library.close m).1 =
      if library.image.closeResult = 0 then .ok ()
      else .error (m.failureOf releaseApi library.image.closeMishap) := by
  rw [close_eq]
  split
  · rfl
  · exact congrArg Except.error (lastFailure_suffer releaseApi m _ _)

theorem trace_close (library : Library) (m : Machine) :
    (library.close m).2.trace = m.trace ++ [.dlclose library.image.name] := by
  rw [close_eq]
  split <;> rfl

theorem sameLoader_close (library : Library) (m : Machine) : (library.close m).2.SameLoader m := by
  rw [close_eq]
  split
  · exact (Machine.sameLoader_noting _ _).trans m.sameLoader_dlerror
  · refine (sameLoader_lastFailure releaseApi _).trans ?_
    exact (Machine.sameLoader_suffer _ _).trans
      ((Machine.sameLoader_noting _ _).trans m.sameLoader_dlerror)

theorem trace_drop (library : Library) (m : Machine) :
    (library.drop m).trace = m.trace ++ [.dlclose library.image.name] :=
  m.trace_dlclose library.image

theorem sameLoader_drop (library : Library) (m : Machine) : (library.drop m).SameLoader m :=
  m.sameLoader_dlclose library.image

end Library

theorem trace_call (function : Function) (m : Machine) :
    (function.call m).2.trace = m.trace ++ [.call function.symbol] := rfl

theorem sameLoader_call (function : Function) (m : Machine) : (function.call m).2.SameLoader m :=
  m.sameLoader_noting _

end LoaderBench.Loader
