import LoaderBench.Proofs.Loader.Ownership

/-!
# Handles are accounted for

At every point of the trace, the libraries of a name that the loader has handed out are those that
have been closed and those that are still held. The induction goes over the operations of a run
(`Ledger`): each leaves one event at most, so every point of the trace lies between two operations.
-/

namespace LoaderBench.Loader

variable {m : Machine} {a b c : Holder} {operation : Operation} {answer : Answer}
  {done transcript before after : List (Operation × Answer)} {events past later : List Event}
  {event : Event} {handle : Nat} {held : Holding} {holdings : List (Option Holding)}
  {name symbol : Bytes}

/-! ### Counting -/

/-- Whether a call opens a library of a name: it does if the loader has one. -/
def Machine.opens (m : Machine) (name : Bytes) : Event → Bool
  | .dlopen opened _ => opened == name && (m.image? opened).isSome
  | _ => false

def closes (name : Bytes) : Event → Bool
  | .dlclose closed => closed == name
  | _ => false

def Machine.openings (m : Machine) (name : Bytes) (events : List Event) : Nat :=
  events.countP (m.opens name)

def closings (name : Bytes) (events : List Event) : Nat := events.countP (closes name)

theorem Machine.openings_append (m : Machine) (name : Bytes) (past later : List Event) :
    m.openings name (past ++ later) = m.openings name past + m.openings name later :=
  List.countP_append

theorem closings_append (name : Bytes) (past later : List Event) :
    closings name (past ++ later) = closings name past + closings name later :=
  List.countP_append

theorem Machine.SameLoader.openings_eq {m m' : Machine} (h : m.SameLoader m') (name : Bytes)
    (events : List Event) : m.openings name events = m'.openings name events := by
  have hopens : m.opens name = m'.opens name := by
    funext event
    cases event with
    | dlopen opened flags => simp only [Machine.opens, h.image?_eq]
    | dlsym library symbol => rfl
    | call symbol => rfl
    | dlclose library => rfl
  rw [Machine.openings, hopens, Machine.openings]

/-- Whether a library of a name is open after some events. -/
def Machine.IsOpen (m : Machine) (name : Bytes) (past : List Event) : Prop :=
  closings name past < m.openings name past

/-- Whether a symbol was looked up in a library which has been open ever since. -/
def Machine.OpenSince (m : Machine) (name symbol : Bytes) (past : List Event) : Prop :=
  ∃ earlier since, past = earlier ++ .dlsym name symbol :: since ∧
    ∀ passed, passed <+: since → m.IsOpen name (earlier ++ .dlsym name symbol :: passed)

theorem Machine.OpenSince.extend (h : m.OpenSince name symbol past) (hlength : events.length ≤ 1)
    (hopen : m.IsOpen name (past ++ events)) : m.OpenSince name symbol (past ++ events) := by
  obtain ⟨earlier, since, rfl, hsince⟩ := h
  rw [List.append_assoc, List.cons_append] at hopen ⊢
  refine ⟨earlier, since ++ events, rfl, fun passed hpassed => ?_⟩
  match events, hlength with
  | [], _ =>
    rw [List.append_nil] at hpassed
    exact hsince passed hpassed
  | [event], _ =>
    rcases List.prefix_concat_iff.mp hpassed with rfl | hbefore
    · exact hopen
    · exact hsince passed hbefore

/-- The library in use where a symbol is looked up and where a library is closed. -/
def Event.library? : Event → Option Bytes
  | .dlsym library _ => some library
  | .dlclose library => some library
  | _ => none

/-- Whether an operation was answered by opening a library of a name. -/
def opening (name : Bytes) : Operation × Answer → Bool
  | (.load opened, .opened _) => opened == name
  | _ => false

namespace Operation

/-- The handle that an operation uses. -/
def handle? : Operation → Option Nat
  | .load _ => none
  | .function handle _ => some handle
  | .call handle _ => some handle
  | .close handle => some handle
  | .drop handle => some handle

/-- The handle that an operation gives back. -/
def released? : Operation → Option Nat
  | .close handle => some handle
  | .drop handle => some handle
  | _ => none

end Operation

namespace Holder

def isOf (name : Bytes) : Option Holding → Bool
  | some held => held.library.image.name == name
  | none => false

/-- How many libraries of a name are held. -/
def live (a : Holder) (name : Bytes) : Nat := a.holdings.countP (isOf name)

theorem countP_set {old : Option Holding} (h : holdings[handle]? = some old)
    (p : Option Holding → Bool) (new : Option Holding) :
    (holdings.set handle new).countP p + (if p old then 1 else 0) =
      holdings.countP p + (if p new then 1 else 0) := by
  induction holdings generalizing handle with
  | nil => cases h
  | cons first holdings ih =>
    cases handle with
    | zero =>
      cases h
      simp only [List.set_cons_zero, List.countP_cons]
      omega
    | succ handle =>
      have hrest := @ih handle h
      simp only [List.set_cons_succ, List.countP_cons]
      omega

theorem live_pos (h : some held ∈ a.holdings) : 0 < a.live held.library.image.name :=
  List.countP_pos_iff.mpr ⟨some held, h, beq_self_eq_true _⟩

/-! ### One operation -/

/-- Giving a library back takes one from those held. -/
theorem countP_give (hh : a.holding? handle = some held) (name : Bytes) :
    closings name [.dlclose held.library.image.name] +
      (a.holdings.set handle none).countP (isOf name) = a.live name := by
  have hset := countP_set (getElem?_of_holding? hh) (isOf name) none
  have hclosing : closings name [.dlclose held.library.image.name] =
      if isOf name (some held) then 1 else 0 := List.countP_singleton
  have hnone : isOf name none = false := rfl
  rw [hnone, if_neg Bool.false_ne_true] at hset
  rw [hclosing, live]
  omega

/-- Looking a function up does not change which libraries are held. -/
theorem countP_look (hh : a.holding? handle = some held) (function : Function) (name : Bytes) :
    (a.holdings.set handle (some { held with functions := function :: held.functions })).countP
      (isOf name) = a.live name := by
  have hset := countP_set (getElem?_of_holding? hh) (isOf name)
    (some { held with functions := function :: held.functions })
  exact Nat.add_right_cancel hset

namespace Does

theorem balance (h : a.Does operation answer events holdings) (name : Bytes) :
    a.machine.openings name events + a.live name =
      closings name events + holdings.countP (isOf name) := by
  cases h with
  | empty => simp [Machine.openings, closings, live]
  | nul => simp [Machine.openings, closings, live]
  | absent hn hi => simp [Machine.openings, closings, Machine.opens, closes, hi, live]
  | opened hn hi =>
    have himage := Machine.name_of_image? hi
    simp [Machine.openings, closings, Machine.opens, closes, hi, live, isOf, himage,
      List.countP_singleton, Nat.add_comm]
  | missing => simp [Machine.openings, closings, Machine.opens, closes, live]
  | null => simp [Machine.openings, closings, Machine.opens, closes, live]
  | found hh hs => simp [Machine.openings, closings, Machine.opens, closes, countP_look hh]
  | called => simp [Machine.openings, closings, Machine.opens, closes, live]
  | closed hh hr => simp [Machine.openings, Machine.opens, countP_give hh]
  | unclosed hh hr => simp [Machine.openings, Machine.opens, countP_give hh]
  | dropped hh => simp [Machine.openings, Machine.opens, countP_give hh]

theorem openings_eq (h : a.Does operation answer events holdings) (name : Bytes) :
    a.machine.openings name events = [(operation, answer)].countP (opening name) := by
  cases h with
  | empty => rfl
  | nul => rfl
  | absent hn hi => simp [Machine.openings, Machine.opens, hi, opening]
  | opened hn hi => simp [Machine.openings, Machine.opens, hi, opening, List.countP_singleton]
  | missing => rfl
  | null => rfl
  | found => rfl
  | called => rfl
  | closed => rfl
  | unclosed => rfl
  | dropped => rfl

theorem length_le (h : a.Does operation answer events holdings) : events.length ≤ 1 := by
  cases h <;> simp

/-- A function that is held afterwards has just been looked up, or was held with the library before. -/
theorem holds (h : a.Does operation answer events holdings) (hheld : some held ∈ holdings)
    {function : Function} (hfunction : function ∈ held.functions) :
    events = [.dlsym held.library.image.name function.symbol] ∨
      ∃ old, some old ∈ a.holdings ∧ old.library = held.library ∧ function ∈ old.functions := by
  have hkept (h : some held ∈ a.holdings) :
      ∃ old, some old ∈ a.holdings ∧ old.library = held.library ∧ function ∈ old.functions :=
    ⟨held, h, rfl, hfunction⟩
  have hset (handle : Nat) (h : some held ∈ a.holdings.set handle none) : some held ∈ a.holdings :=
    (List.mem_or_eq_of_mem_set h).resolve_right nofun
  cases h with
  | empty => exact .inr (hkept hheld)
  | nul => exact .inr (hkept hheld)
  | absent => exact .inr (hkept hheld)
  | opened hn hi =>
    rcases List.mem_append.mp hheld with hold | hnew
    · exact .inr (hkept hold)
    · cases List.mem_singleton.mp hnew
      cases hfunction
  | missing => exact .inr (hkept hheld)
  | null => exact .inr (hkept hheld)
  | @found handle symbol old result hh hs =>
    rcases List.mem_or_eq_of_mem_set hheld with hold | hnew
    · exact .inr (hkept hold)
    · cases hnew
      rcases List.mem_cons.mp hfunction with rfl | hold
      · exact .inl rfl
      · exact .inr ⟨old, mem_of_holding? hh, rfl, hold⟩
  | called => exact .inr (hkept hheld)
  | closed => exact .inr (hkept (hset _ hheld))
  | unclosed => exact .inr (hkept (hset _ hheld))
  | dropped => exact .inr (hkept (hset _ hheld))

theorem library_held (h : a.Does operation answer [event] holdings)
    (hl : event.library? = some name) :
    ∃ handle held, a.holding? handle = some held ∧ held.library.image.name = name := by
  cases h with
  | absent => cases hl
  | opened => cases hl
  | missing hh => exact ⟨_, _, hh, Option.some.inj hl⟩
  | null hh => exact ⟨_, _, hh, Option.some.inj hl⟩
  | found hh => exact ⟨_, _, hh, Option.some.inj hl⟩
  | called => cases hl
  | closed hh => exact ⟨_, _, hh, Option.some.inj hl⟩
  | unclosed hh => exact ⟨_, _, hh, Option.some.inj hl⟩
  | dropped hh => exact ⟨_, _, hh, Option.some.inj hl⟩

theorem live_pos (h : a.Does operation answer [event] holdings) (hl : event.library? = some name) :
    0 < a.live name := by
  obtain ⟨handle, held, hh, rfl⟩ := h.library_held hl
  exact Holder.live_pos (mem_of_holding? hh)

end Does

/-! ### Whole runs -/

/-- What a run keeps: the loader, and the account of the operations `done` and the events `past` that
they have left. -/
structure Ledger (m : Machine) (done : List (Operation × Answer)) (past : List Event) (a : Holder) :
    Prop where
  loader : a.machine.SameLoader m
  trace : a.machine.trace = m.trace ++ past
  opened : ∀ name, m.openings name past = done.countP (opening name)
  balance : ∀ name, m.openings name past = closings name past + a.live name
  looked : ∀ held, some held ∈ a.holdings → ∀ function ∈ held.functions,
    m.OpenSince held.library.image.name function.symbol past

theorem ledger_new (m : Machine) : Ledger m [] [] (.new m) where
  loader := .refl m
  trace := (List.append_nil _).symm
  opened := fun _ => rfl
  balance := fun _ => rfl
  looked := fun _ hheld => absurd hheld List.not_mem_nil

theorem Ledger.isOpen (h : Ledger m done past a) (hlive : 0 < a.live name) : m.IsOpen name past := by
  have hbalance := h.balance name
  unfold Machine.IsOpen
  omega

theorem Ledger.step (h : Ledger m done past a) (hsteps : a.Steps operation answer events b) :
    Ledger m (done ++ [(operation, answer)]) (past ++ events) b := by
  have hopenings (name : Bytes) : m.openings name events = a.machine.openings name events :=
    (h.loader.openings_eq name events).symm
  have hbalance (name : Bytes) :
      m.openings name (past ++ events) = closings name (past ++ events) + b.live name := by
    have hstep := hsteps.does.balance name
    have hlive : b.live name = b.holdings.countP (isOf name) := rfl
    rw [Machine.openings_append, closings_append, h.balance, hopenings]
    omega
  refine ⟨hsteps.loader.trans h.loader, ?_, fun name => ?_, hbalance, fun held hheld f hf => ?_⟩
  · rw [hsteps.trace, h.trace, List.append_assoc]
  · rw [Machine.openings_append, List.countP_append, h.opened, hopenings, hsteps.does.openings_eq]
  · have hopen : m.IsOpen held.library.image.name (past ++ events) := by
      have hheldOf := hbalance held.library.image.name
      have hpos := live_pos hheld
      unfold Machine.IsOpen
      omega
    rcases hsteps.does.holds hheld hf with rfl | ⟨old, hold, hlibrary, hfold⟩
    · refine ⟨past, [], rfl, fun passed hpassed => ?_⟩
      rw [List.prefix_nil.mp hpassed]
      exact hopen
    · have hlooked := h.looked old hold f hfold
      rw [hlibrary] at hlooked
      exact hlooked.extend hsteps.does.length_le hopen

theorem Ledger.run (h : Ledger m done past a) (hrun : a.Run transcript b) :
    ∃ events, Ledger m (done ++ transcript) (past ++ events) b := by
  induction hrun generalizing done past with
  | none =>
    refine ⟨[], ?_⟩
    rw [List.append_nil, List.append_nil]
    exact h
  | next hact _ ih =>
    obtain ⟨first, hsteps⟩ := steps_of_act hact
    obtain ⟨rest, hledger⟩ := ih (h.step hsteps)
    rw [List.append_assoc, List.append_assoc] at hledger
    exact ⟨first ++ rest, hledger⟩

theorem Run.ledger (h : (Holder.new m).Run transcript a) : ∃ events, Ledger m transcript events a :=
  (ledger_new m).run h

/-- Every event is left by one operation, which is performed when those before it are in the trace. -/
theorem Run.at_event (h : a.Run transcript c) {start : List Event} (ha : Ledger m done start a)
    (htrace : c.machine.trace = m.trace ++ (start ++ (past ++ event :: later))) :
    ∃ before operation answer b b', before ++ [(operation, answer)] <+: transcript ∧
      a.Run before b ∧ Ledger m (done ++ before) (start ++ past) b ∧
        b.Steps operation answer [event] b' := by
  induction h generalizing done start past with
  | none =>
    have hlength := congrArg List.length (List.append_cancel_left (ha.trace.symm.trans htrace))
    simp only [List.length_append, List.length_cons] at hlength
    omega
  | @next a b c operation answer transcript hact hrun ih =>
    obtain ⟨events, hsteps⟩ := steps_of_act hact
    have hb := ha.step hsteps
    obtain ⟨rest, hc⟩ := hb.run hrun
    have hall : events ++ rest = past ++ event :: later := by
      rw [hc.trace, List.append_assoc] at htrace
      exact List.append_cancel_left (List.append_cancel_left htrace)
    have hlater (skipped : List Event) (hpast : past = events ++ skipped)
        (htail : rest = skipped ++ event :: later) :
        ∃ before operation' answer' d d', before ++ [(operation', answer')] <+:
            (operation, answer) :: transcript ∧
          a.Run before d ∧ Ledger m (done ++ before) (start ++ past) d ∧
            d.Steps operation' answer' [event] d' := by
      rw [htail] at hc
      obtain ⟨before, operation', answer', d, d', hbefore, hd, hledger, hdsteps⟩ := ih hb hc.trace
      refine ⟨(operation, answer) :: before, operation', answer', d, d', ?_, .next hact hd, ?_,
        hdsteps⟩
      · exact List.cons_prefix_cons.mpr ⟨rfl, hbefore⟩
      · rw [List.append_assoc, List.append_assoc, ← hpast] at hledger
        exact hledger
    -- An operation leaves one event at most: it is the one in question, or it stands before it.
    rcases List.append_eq_append_iff.mp hall with ⟨skipped, hpast, htail⟩ | ⟨kept, hevents, htail⟩
    · exact hlater skipped hpast htail
    · cases kept with
      | nil =>
        rw [List.append_nil] at hevents
        exact hlater [] (by rw [hevents, List.append_nil]) htail.symm
      | cons first kept =>
        obtain ⟨rfl, -⟩ := List.cons.inj htail
        have hlength := hsteps.does.length_le
        rw [hevents, List.length_append, List.length_cons] at hlength
        obtain rfl : past = [] := List.length_eq_zero_iff.mp (by omega)
        obtain rfl : kept = [] := List.length_eq_zero_iff.mp (by omega)
        rw [hevents] at hsteps
        refine ⟨[], operation, answer, a, b, ?_, .none, ?_, hsteps⟩
        · exact List.cons_prefix_cons.mpr ⟨rfl, List.nil_prefix⟩
        · rw [List.append_nil, List.append_nil]
          exact ha

/-! ### Handles that were given back -/

theorem ne_of_holding? (hspent : a.holdings[handle]? = some none) {other : Nat}
    (hh : a.holding? other = some held) : other ≠ handle := by
  rintro rfl
  rw [getElem?_of_holding? hh] at hspent
  cases hspent

/-- A handle that was given back is not used again, and stays so. -/
theorem Does.spent (h : a.Does operation answer events holdings)
    (hspent : a.holdings[handle]? = some none) :
    operation.handle? ≠ some handle ∧ holdings[handle]? = some none := by
  have hother {other : Nat} {old : Holding} (hh : a.holding? other = some old)
      (new : Option Holding) :
      some other ≠ some handle ∧ (a.holdings.set other new)[handle]? = some none := by
    have hne := ne_of_holding? hspent hh
    refine ⟨fun hsame => hne (Option.some.inj hsame), ?_⟩
    rw [List.getElem?_set_ne hne, hspent]
  cases h with
  | empty => exact ⟨nofun, hspent⟩
  | nul => exact ⟨nofun, hspent⟩
  | absent => exact ⟨nofun, hspent⟩
  | opened =>
    obtain ⟨hlt, -⟩ := List.getElem?_eq_some_iff.mp hspent
    exact ⟨nofun, (List.getElem?_append_left hlt).trans hspent⟩
  | missing hh => exact ⟨(hother hh none).1, hspent⟩
  | null hh => exact ⟨(hother hh none).1, hspent⟩
  | found hh => exact hother hh _
  | called hh => exact ⟨(hother hh none).1, hspent⟩
  | closed hh => exact hother hh none
  | unclosed hh => exact hother hh none
  | dropped hh => exact hother hh none

/-- Giving a library back closes it once, and leaves the handle without it, whether closing fails or
not. -/
theorem Does.releases (h : a.Does operation answer events holdings)
    (hreleased : operation.released? = some handle) :
    ∃ held, a.holding? handle = some held ∧ events = [.dlclose held.library.image.name] ∧
      holdings = a.holdings.set handle none := by
  cases h with
  | empty => cases hreleased
  | nul => cases hreleased
  | absent => cases hreleased
  | opened => cases hreleased
  | missing => cases hreleased
  | null => cases hreleased
  | found => cases hreleased
  | called => cases hreleased
  | closed hh =>
    cases hreleased
    exact ⟨_, hh, rfl, rfl⟩
  | unclosed hh =>
    cases hreleased
    exact ⟨_, hh, rfl, rfl⟩
  | dropped hh =>
    cases hreleased
    exact ⟨_, hh, rfl, rfl⟩

theorem Does.spends (h : a.Does operation answer events holdings)
    (hreleased : operation.released? = some handle) : holdings[handle]? = some none := by
  obtain ⟨held, hh, -, rfl⟩ := h.releases hreleased
  obtain ⟨hlt, -⟩ := List.getElem?_eq_some_iff.mp (getElem?_of_holding? hh)
  exact List.getElem?_set_self hlt

theorem Run.spent (h : a.Run transcript b) (hspent : a.holdings[handle]? = some .none) :
    ∀ later ∈ transcript, later.1.handle? ≠ some handle := by
  induction h with
  | none => exact fun later hlater => absurd hlater List.not_mem_nil
  | next hact _ ih =>
    obtain ⟨events, hsteps⟩ := steps_of_act hact
    obtain ⟨hunused, hstill⟩ := hsteps.does.spent hspent
    exact List.forall_mem_cons.mpr ⟨hunused, ih hstill⟩

theorem Run.retired (h : a.Run transcript c)
    (htranscript : transcript = before ++ (operation, answer) :: after)
    (hreleased : operation.released? = some handle) :
    ∀ later ∈ after, later.1.handle? ≠ some handle := by
  induction h generalizing before with
  | none => exact absurd htranscript.symm (List.append_ne_nil_of_right_ne_nil _ nofun)
  | next hact hrun ih =>
    cases before with
    | nil =>
      obtain ⟨hfirst, rfl⟩ := List.cons.inj htranscript
      obtain ⟨rfl, rfl⟩ := Prod.mk.inj hfirst
      obtain ⟨events, hsteps⟩ := steps_of_act hact
      exact hrun.spent (hsteps.does.spends hreleased)
    | cons first before => exact ih (List.cons.inj htranscript).2

/-- A library that is held can be given back in both ways. -/
theorem act_release (hh : a.holding? handle = some held)
    (hreleased : operation.released? = some handle) :
    ∃ answer b, a.act operation = some (answer, b) ∧
      b.machine.trace = a.machine.trace ++ [.dlclose held.library.image.name] ∧
        b.holdings = a.holdings.set handle none := by
  have hacts : ∃ result, a.act operation = some result := by
    cases operation with
    | load name => cases hreleased
    | function other symbol => cases hreleased
    | call other function => cases hreleased
    | close other =>
      cases hreleased
      rw [act, hh]
      exact ⟨_, rfl⟩
    | drop other =>
      cases hreleased
      rw [act, hh]
      exact ⟨_, rfl⟩
  obtain ⟨⟨answer, b⟩, hact⟩ := hacts
  obtain ⟨events, hsteps⟩ := steps_of_act hact
  obtain ⟨other, hother, rfl, hholdings⟩ := hsteps.does.releases hreleased
  cases hh.symm.trans hother
  exact ⟨answer, b, hact, hsteps.trace, hholdings⟩

/-- A load that fails opens nothing. -/
theorem act_refused {failure : Failure} (hact : a.act (.load name) = some (.failed failure, b)) :
    b.holdings = a.holdings ∧ ∃ tried, b.machine.trace = a.machine.trace ++ tried ∧
      ∀ other, a.machine.openings other tried = 0 ∧ closings other tried = 0 := by
  obtain ⟨tried, hdoes, -, htrace⟩ := steps_of_act hact
  have hopened (other : Bytes) : a.machine.openings other tried = 0 := hdoes.openings_eq other
  generalize b.holdings = holdings at hdoes ⊢
  cases hdoes with
  | empty => exact ⟨rfl, _, htrace, fun other => ⟨hopened other, rfl⟩⟩
  | nul => exact ⟨rfl, _, htrace, fun other => ⟨hopened other, rfl⟩⟩
  | absent => exact ⟨rfl, _, htrace, fun other => ⟨hopened other, rfl⟩⟩

/-- A name that cannot be handed over is refused, and changes nothing at all. -/
theorem act_unnameable (h : ¬ Nameable name) :
    ∃ failure, a.act (.load name) = some (.failed failure, a) := by
  by_cases hempty : name = []
  · subst hempty
    rw [act, Library.load_empty]
    exact ⟨_, rfl⟩
  · have h0 : 0 ∈ name := Decidable.not_not.mp fun h0 => h ⟨hempty, h0⟩
    rw [act, Library.load_nul h0]
    exact ⟨_, rfl⟩

theorem live_eq_zero (h : ∀ handle, a.holding? handle = none) (name : Bytes) : a.live name = 0 := by
  refine List.countP_eq_zero.mpr fun holding hholding => ?_
  obtain ⟨handle, hhandle⟩ := List.mem_iff_getElem?.mp hholding
  have hnone : holding = none := by
    have hjoin := h handle
    rw [holding?, hhandle] at hjoin
    exact hjoin
  rw [hnone]
  exact Bool.false_ne_true

end Holder

/-! ### The account -/

/-- How the libraries of a run are accounted for, which begins with the loader `m` and nothing held,
ends in `a`, and leaves `events` in the trace. -/
structure Accounted (m : Machine) (transcript : List (Operation × Answer)) (events : List Event)
    (a : Holder) : Prop where
  /-- At each point, what was opened is what was closed and what is held there. -/
  balance : ∀ past later, events = past ++ later → ∃ before b, before <+: transcript ∧
    (Holder.new m).Run before b ∧ b.machine.trace = m.trace ++ past ∧
      ∀ name, m.openings name past = closings name past + b.live name
  /-- What the loader opens is what the program is told to have opened. -/
  opened : ∀ name, m.openings name events = transcript.countP (opening name)
  /-- Symbols are looked up in open libraries, and open libraries are closed. -/
  used : ∀ past event later name, events = past ++ event :: later →
    event.library? = some name → m.IsOpen name past
  /-- What is called was looked up in a library that has been open ever since. -/
  called : ∀ past symbol later, events = past ++ .call symbol :: later →
    ∃ name, m.OpenSince name symbol past
  /-- A handle that was given back is not used again, not even to close it once more. -/
  retired : ∀ before operation answer after handle,
    transcript = before ++ (operation, answer) :: after → operation.released? = some handle →
      ∀ later ∈ after, later.1.handle? ≠ some handle
  /-- What is held can be given back, which closes it once and leaves the handle without it, whether
  closing fails or not. -/
  released : ∀ handle held operation, a.holding? handle = some held →
    operation.released? = some handle → ∃ answer b, a.act operation = some (answer, b) ∧
      b.machine.trace = a.machine.trace ++ [.dlclose held.library.image.name] ∧
        b.holdings = a.holdings.set handle none
  /-- A failing load changes nothing that is counted. -/
  refused : ∀ name failure b, a.act (.load name) = some (.failed failure, b) →
    b.holdings = a.holdings ∧ ∃ tried, b.machine.trace = a.machine.trace ++ tried ∧
      ∀ other, m.openings other tried = 0 ∧ closings other tried = 0
  unnameable : ∀ name, ¬ Nameable name → ∃ failure, a.act (.load name) = some (.failed failure, a)
  /-- When nothing is held any more, all that was opened is closed. -/
  settled : (∀ handle, a.holding? handle = none) →
    ∀ name, m.openings name events = closings name events

theorem handles_accounted (h : (Holder.new m).Run transcript a) :
    ∃ events, a.machine.trace = m.trace ++ events ∧ Accounted m transcript events a := by
  obtain ⟨events, hledger⟩ := h.ledger
  have hpoint {past later : List Event} {event : Event} (hevents : events = past ++ event :: later) :
      ∃ before operation answer b b', before ++ [(operation, answer)] <+: transcript ∧
        (Holder.new m).Run before b ∧ Holder.Ledger m ([] ++ before) ([] ++ past) b ∧
          b.Steps operation answer [event] b' := by
    have htrace : a.machine.trace = m.trace ++ ([] ++ (past ++ event :: later)) := by
      rw [List.nil_append, ← hevents]
      exact hledger.trace
    exact h.at_event (Holder.ledger_new m) htrace
  refine ⟨events, hledger.trace, ?_⟩
  constructor
  case balance =>
    intro past later hevents
    cases later with
    | nil =>
      rw [List.append_nil] at hevents
      exact ⟨transcript, a, List.prefix_rfl, h, hevents ▸ hledger.trace, hevents ▸ hledger.balance⟩
    | cons event later =>
      obtain ⟨before, operation, answer, b, b', hbefore, hrun, hb, -⟩ := hpoint hevents
      exact ⟨before, b, (List.prefix_append _ _).trans hbefore, hrun, hb.trace, hb.balance⟩
  case opened => exact hledger.opened
  case used =>
    intro past event later name hevents hname
    obtain ⟨before, operation, answer, b, b', -, -, hb, hsteps⟩ := hpoint hevents
    exact hb.isOpen (hsteps.does.live_pos hname)
  case called =>
    intro past symbol later hevents
    obtain ⟨before, operation, answer, b, b', -, -, hb, hsteps⟩ := hpoint hevents
    have hdoes := hsteps.does
    generalize b'.holdings = holdings at hdoes
    cases hdoes with
    | called hh hf => exact ⟨_, hb.looked _ (Holder.mem_of_holding? hh) _ hf⟩
  case retired => exact fun before operation answer after handle => h.retired
  case released => exact fun handle held operation => Holder.act_release
  case refused =>
    intro name failure b hact
    obtain ⟨hholdings, tried, htrace, htried⟩ := Holder.act_refused hact
    refine ⟨hholdings, tried, htrace, fun other => ?_⟩
    rw [← hledger.loader.openings_eq]
    exact htried other
  case unnameable => exact fun name => Holder.act_unnameable
  case settled =>
    intro hnone name
    rw [hledger.balance, Holder.live_eq_zero hnone, Nat.add_zero]

/-! ### A library that is opened twice -/

/-- A loader with one library, which it fails to close. -/
def leaky : Machine :=
  .initial [⟨Utf8.encode "a", [(Utf8.encode "one", some 1)], .silent, -1, .silent⟩] .silent 0 none

def leakyTranscript : List (Operation × Answer) :=
  [(.load (Utf8.encode "a"), .opened 0),
    (.load (Utf8.encode "a"), .opened 1),
    (.function 1 (Utf8.encode "one"), .found ⟨Utf8.encode "one", 1⟩),
    (.close 0, .failed ⟨releaseApi, 0, none⟩),
    (.load (Utf8.encode "b"), .failed ⟨loadApi, 0, none⟩),
    (.call 1 ⟨Utf8.encode "one", 1⟩, .returned 1),
    (.drop 1, .done)]

def leakyTrace : List Event :=
  [.dlopen (Utf8.encode "a") 2, .dlopen (Utf8.encode "a") 2,
    .dlsym (Utf8.encode "a") (Utf8.encode "one"), .dlclose (Utf8.encode "a"),
    .dlopen (Utf8.encode "b") 2, .call (Utf8.encode "one"), .dlclose (Utf8.encode "a")]

theorem leaky_handles_accounted :
    let left : Holder := ⟨{ leaky with trace := leakyTrace }, [none, none]⟩
    (Holder.new leaky).Run leakyTranscript left ∧
      ∃ events, left.machine.trace = leaky.trace ++ events ∧
        Accounted leaky leakyTranscript events left := by
  intro left
  have hrun : (Holder.new leaky).Run leakyTranscript left :=
    .next rfl (.next rfl (.next rfl (.next rfl (.next rfl (.next rfl (.next rfl .none))))))
  exact ⟨hrun, handles_accounted hrun⟩

end LoaderBench.Loader
