import LoaderBench.Proofs.Loader.Ownership
import LoaderBench.Proofs.Text.Front

/-!
# What a failure tells

A failure is told of the call that failed and of nothing before it: the number is the one that the call
has set, or else the one that fetching leftover messages leaves, and the message is its own. Whatever
number or message the loader has to begin with, and whatever was done before, an operation fails in the
ways that `Fails` lists and in no other.
-/

namespace LoaderBench.Loader

variable {m : Machine} {a b : Holder} {operation : Operation} {answer : Answer}
  {transcript : List (Operation × Answer)} {failure : Failure}

/-! ### Messages -/

/-- What the calls of a loader can leave where they fail. -/
def Machine.mishaps (m : Machine) : List Mishap :=
  m.openMishap :: m.images.flatMap fun image => [image.lookupMishap, image.closeMishap]

/-- Whether no message of a loader has a NUL byte, at which it would end. -/
def Machine.SpeaksPlainly (m : Machine) : Prop :=
  ∀ mishap ∈ m.mishaps, ∀ message ∈ mishap.message, 0 ∉ message

instance (m : Machine) : Decidable m.SpeaksPlainly :=
  inferInstanceAs (Decidable (∀ mishap ∈ m.mishaps, ∀ message ∈ mishap.message, 0 ∉ message))

namespace Machine.SpeaksPlainly

variable {image : Image}

theorem ofOpening (h : m.SpeaksPlainly) : ∀ message ∈ m.openMishap.message, 0 ∉ message :=
  h m.openMishap List.mem_cons_self

theorem ofLookup (h : m.SpeaksPlainly) (hi : image ∈ m.images) :
    ∀ message ∈ image.lookupMishap.message, 0 ∉ message := by
  refine h image.lookupMishap (List.mem_cons_of_mem _ (List.mem_flatMap.mpr ⟨image, hi, ?_⟩))
  exact List.mem_cons_self

theorem ofClosing (h : m.SpeaksPlainly) (hi : image ∈ m.images) :
    ∀ message ∈ image.closeMishap.message, 0 ∉ message := by
  refine h image.closeMishap (List.mem_cons_of_mem _ (List.mem_flatMap.mpr ⟨image, hi, ?_⟩))
  exact List.mem_cons_of_mem _ List.mem_cons_self

end Machine.SpeaksPlainly

theorem silent_plain : ∀ message ∈ Mishap.silent.message, 0 ∉ message := by
  intro message h
  cases h

theorem messageText_plain {message : Bytes} (h : 0 ∉ message) :
    messageText message = Utf8.lossy message := by
  rw [messageText, Text.takeWhile_all (Text.bne_of_not_mem h)]

/-- A failure that is told of what one call has left: the number that it set, or the one that stood
there when it was made, and the text of its message. -/
structure Failure.Tells (failure : Failure) (api : String) (mishap : Mishap) (cleared : Int32) :
    Prop where
  api : failure.api = api
  code : failure.code = mishap.number.getD cleared
  detail : failure.detail = mishap.message.map Utf8.lossy

theorem Failure.tells_iff {api : String} {mishap : Mishap}
    (hplain : ∀ message ∈ mishap.message, 0 ∉ message) :
    failure.Tells api mishap m.fetchNumber ↔ failure = m.failureOf api mishap := by
  have hdetail : mishap.message.map messageText = mishap.message.map Utf8.lossy := by
    cases hm : mishap.message with
    | none => rfl
    | some message => exact congrArg some (messageText_plain (hplain message hm))
  constructor
  · rintro ⟨hapi, hcode, hmessage⟩
    obtain ⟨api', code, detail⟩ := failure
    rw [Machine.failureOf, hdetail]
    exact congr (congr (congrArg Failure.mk hapi) hcode) hmessage
  · rintro rfl
    exact ⟨rfl, rfl, hdetail⟩

/-! ### What is held comes from the loader -/

namespace Holder

def Stocked (images : List Image) (a : Holder) : Prop :=
  ∀ held, some held ∈ a.holdings → held.library.image ∈ images

theorem Steps.stocked {events : List Event} (h : a.Steps operation answer events b)
    (ha : a.Stocked m.images) (hm : a.machine.SameLoader m) : b.Stocked m.images := by
  intro held hheld
  have hdoes := h.does
  generalize b.holdings = holdings at hdoes hheld
  cases hdoes with
  | empty => exact ha held hheld
  | nul => exact ha held hheld
  | absent => exact ha held hheld
  | opened hn hi =>
    rcases List.mem_append.mp hheld with hold | hnew
    · exact ha held hold
    · cases List.mem_singleton.mp hnew
      rw [hm.image?_eq] at hi
      exact List.mem_of_find?_eq_some hi
  | missing => exact ha held hheld
  | null => exact ha held hheld
  | @found handle symbol old result hh hs =>
    rcases List.mem_or_eq_of_mem_set hheld with hold | hnew
    · exact ha held hold
    · cases hnew
      exact ha old (mem_of_holding? hh)
  | called => exact ha held hheld
  | closed hh hr => exact ha held ((List.mem_or_eq_of_mem_set hheld).resolve_right nofun)
  | unclosed hh hr => exact ha held ((List.mem_or_eq_of_mem_set hheld).resolve_right nofun)
  | dropped hh => exact ha held ((List.mem_or_eq_of_mem_set hheld).resolve_right nofun)

theorem Run.stocked (h : Run a transcript b) (ha : a.Stocked m.images)
    (hm : a.machine.SameLoader m) : b.Stocked m.images := by
  induction h with
  | none => exact ha
  | next hact _ ih =>
    obtain ⟨events, hsteps⟩ := steps_of_act hact
    exact ih (hsteps.stocked ha hm) (hsteps.loader.trans hm)

end Holder

/-! ### Failures -/

/-- Why an operation fails, and what is told: this takes the libraries of the loader, what is held and
the operation, but neither the number nor the message that earlier operations have left. -/
inductive Fails (m : Machine) (library? : Nat → Option Library) : Operation → Failure → Prop where
  | empty : Fails m library? (.load []) ⟨loadApi, noSuchFile, some "empty library path"⟩
  | nul {name : Bytes} (h0 : 0 ∈ name) :
    Fails m library? (.load name)
      ⟨loadApi, invalidArgument, some "library name contains a NUL byte"⟩
  | absent {name : Bytes} {failure : Failure} (hn : Nameable name) (hi : m.image? name = none)
      (ht : failure.Tells loadApi m.openMishap m.fetchNumber) :
    Fails m library? (.load name) failure
  | missing {handle : Nat} {symbol : Bytes} {library : Library} {failure : Failure}
      (hl : library? handle = some library) (hs : library.image.symbols.lookup symbol = none)
      (ht : failure.Tells resolveApi library.image.lookupMishap m.fetchNumber) :
    Fails m library? (.function handle symbol) failure
  | null {handle : Nat} {symbol : Bytes} {library : Library} {failure : Failure}
      (hl : library? handle = some library) (hs : library.image.symbols.lookup symbol = some none)
      (ht : failure.Tells resolveApi .silent m.fetchNumber) :
    Fails m library? (.function handle symbol) failure
  | unclosed {handle : Nat} {library : Library} {failure : Failure}
      (hl : library? handle = some library) (hr : library.image.closeResult ≠ 0)
      (ht : failure.Tells releaseApi library.image.closeMishap m.fetchNumber) :
    Fails m library? (.close handle) failure

namespace Holder

theorem library?_of_holding? {handle : Nat} {held : Holding} (h : a.holding? handle = some held) :
    a.library? handle = some held.library := by
  rw [library?, h, Option.map_some]

theorem eq_of_library? {handle : Nat} {held : Holding} {library : Library}
    (h : a.holding? handle = some held) (hl : a.library? handle = some library) :
    held.library = library := by
  rw [library?_of_holding? h] at hl
  exact Option.some.inj hl

theorem Does.fails {events : List Event} {holdings : List (Option Holding)}
    (h : a.Does operation (.failed failure) events holdings) (hplain : m.SpeaksPlainly)
    (hm : a.machine.SameLoader m) (ha : a.Stocked m.images) :
    Fails m a.library? operation failure := by
  cases h with
  | empty => exact .empty
  | nul h0 => exact .nul h0
  | absent hn hi =>
    rw [hm.image?_eq] at hi
    rw [hm.failureOf_eq, hm.openMishap]
    exact .absent hn hi ((Failure.tells_iff hplain.ofOpening).mpr rfl)
  | missing hh hs =>
    rw [hm.failureOf_eq]
    exact .missing (library?_of_holding? hh) hs
      ((Failure.tells_iff (hplain.ofLookup (ha _ (mem_of_holding? hh)))).mpr rfl)
  | null hh hs =>
    rw [hm.failureOf_eq]
    exact .null (library?_of_holding? hh) hs ((Failure.tells_iff silent_plain).mpr rfl)
  | unclosed hh hr =>
    rw [hm.failureOf_eq]
    exact .unclosed (library?_of_holding? hh) hr
      ((Failure.tells_iff (hplain.ofClosing (ha _ (mem_of_holding? hh)))).mpr rfl)

theorem Does.failed {events : List Event} {holdings : List (Option Holding)}
    (h : a.Does operation answer events holdings) (hfails : Fails m a.library? operation failure)
    (hplain : m.SpeaksPlainly) (hm : a.machine.SameLoader m) (ha : a.Stocked m.images) :
    answer = .failed failure := by
  cases hfails with
  | empty =>
    cases h with
    | empty => rfl
    | nul h0 => exact absurd h0 List.not_mem_nil
    | absent hn => exact absurd rfl hn.1
    | opened hn => exact absurd rfl hn.1
  | nul h0 =>
    cases h with
    | empty => exact absurd h0 List.not_mem_nil
    | nul => rfl
    | absent hn => exact absurd h0 hn.2
    | opened hn => exact absurd h0 hn.2
  | absent hn hi ht =>
    rw [(Failure.tells_iff hplain.ofOpening).mp ht]
    cases h with
    | empty => exact absurd rfl hn.1
    | nul h0 => exact absurd h0 hn.2
    | absent => rw [hm.failureOf_eq, hm.openMishap]
    | opened _ hi' =>
      rw [hm.image?_eq, hi] at hi'
      cases hi'
  | missing hl hs ht =>
    cases h with
    | missing hh =>
      obtain rfl := eq_of_library? hh hl
      rw [(Failure.tells_iff (hplain.ofLookup (ha _ (mem_of_holding? hh)))).mp ht, hm.failureOf_eq]
    | null hh hs' =>
      obtain rfl := eq_of_library? hh hl
      rw [hs] at hs'
      cases hs'
    | found hh hs' =>
      obtain rfl := eq_of_library? hh hl
      rw [hs] at hs'
      cases hs'
  | null hl hs ht =>
    cases h with
    | missing hh hs' =>
      obtain rfl := eq_of_library? hh hl
      rw [hs] at hs'
      cases hs'
    | null => rw [(Failure.tells_iff silent_plain).mp ht, hm.failureOf_eq]
    | found hh hs' =>
      obtain rfl := eq_of_library? hh hl
      rw [hs] at hs'
      cases hs'
  | unclosed hl hr ht =>
    cases h with
    | closed hh hr' =>
      obtain rfl := eq_of_library? hh hl
      exact absurd hr' hr
    | unclosed hh =>
      obtain rfl := eq_of_library? hh hl
      rw [(Failure.tells_iff (hplain.ofClosing (ha _ (mem_of_holding? hh)))).mp ht, hm.failureOf_eq]

end Holder

/-- Whatever operations have been performed before, and whatever number and message the loader had to
begin with, an operation answers a failure exactly if it fails by itself. -/
theorem fails_by_itself (hplain : m.SpeaksPlainly) (hrun : (Holder.new m).Run transcript a)
    (hact : a.act operation = some (answer, b)) (failure : Failure) :
    answer = .failed failure ↔ Fails m a.library? operation failure := by
  have hm : a.machine.SameLoader m := hrun.sameLoader
  have hstocked : a.Stocked m.images :=
    hrun.stocked (fun held hheld => absurd hheld List.not_mem_nil) (.refl m)
  obtain ⟨events, hsteps⟩ := Holder.steps_of_act hact
  constructor
  · rintro rfl
    exact hsteps.does.fails hplain hm hstocked
  · exact fun hfails => hsteps.does.failed hfails hplain hm hstocked

/-! ### A loader that has been through much -/

/-- A library whose failing look-ups set nothing, and whose closing fails. -/
def stubborn : Image where
  name := Utf8.encode "a"
  symbols := [(Utf8.encode "one", some 1), (Utf8.encode "nil", none)]
  lookupMishap := .silent
  closeResult := -1
  closeMishap := ⟨some 16, some (Utf8.encode "busy")⟩

/-- A loader with a message that an earlier program has left. -/
def messy : Machine :=
  .initial [stubborn] ⟨some 2, some (Utf8.encode "no such library")⟩ 9 (some (Utf8.encode "stale"))

/-- A failure to open, and a failure to close of which nobody is told. -/
def messyTranscript : List (Operation × Answer) :=
  [(.load (Utf8.encode "b"), .failed ⟨loadApi, 2, some "no such library"⟩),
    (.load (Utf8.encode "a"), .opened 0),
    (.load (Utf8.encode "a"), .opened 1),
    (.drop 0, .done)]

/-- What is left by them: a library, and the number and message of the failed closing. -/
def mess : Holder where
  machine :=
    { messy with
      number := 16
      pending := some (Utf8.encode "busy")
      trace :=
        [.dlopen (Utf8.encode "b") 2, .dlopen (Utf8.encode "a") 2, .dlopen (Utf8.encode "a") 2,
          .dlclose (Utf8.encode "a")] }
  holdings := [none, some ⟨⟨stubborn⟩, []⟩]

/-- A look-up that sets neither number nor message fails with nothing of what was left. -/
theorem silent_failure_after_mess :
    messy.SpeaksPlainly ∧ (Holder.new messy).Run messyTranscript mess ∧
      ∃ b, mess.act (.function 1 (Utf8.encode "two")) =
          some (.failed ⟨resolveApi, 9, none⟩, b) ∧
        Fails messy mess.library? (.function 1 (Utf8.encode "two")) ⟨resolveApi, 9, none⟩ := by
  have hplain : messy.SpeaksPlainly := by decide
  have hrun : (Holder.new messy).Run messyTranscript mess :=
    .next rfl (.next rfl (.next rfl (.next rfl .none)))
  obtain ⟨b, hact⟩ : ∃ b, mess.act (.function 1 (Utf8.encode "two")) =
    some (.failed ⟨resolveApi, 9, none⟩, b) := ⟨_, rfl⟩
  exact ⟨hplain, hrun, b, hact, (fails_by_itself hplain hrun hact _).mp rfl⟩

end LoaderBench.Loader
