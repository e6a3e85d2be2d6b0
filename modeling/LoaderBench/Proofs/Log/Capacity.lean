import LoaderBench.Proofs.Log.Reading

/-!
# Logs with limited room

A bounded medium keeps the first bytes of all that it is ever offered, as many as there is room for.
What comes after the room is used up is lost, and nothing that was kept is touched. A call fails from
the first byte on that does not fit, whatever the pieces in which the bytes come.
-/

namespace LoaderBench.Log

open LoaderBench.Platform

variable {capacity : Option Nat} {whenFull : WhenFull} {flushError : Option String}

/-! ### Room -/

/-- What is kept of bytes where there is room for `capacity` of them. -/
def kept (capacity : Option Nat) (bytes : Bytes) : Bytes :=
  match capacity with
  | none => bytes
  | some n => bytes.take n

/-- There is room for all of the bytes. -/
def Fits (capacity : Option Nat) (bytes : Bytes) : Prop :=
  match capacity with
  | none => True
  | some n => bytes.length ≤ n

/-- There is no room for another byte. -/
def Full (capacity : Option Nat) (bytes : Bytes) : Prop :=
  match capacity with
  | none => False
  | some n => n ≤ bytes.length

instance (capacity : Option Nat) (bytes : Bytes) : Decidable (Fits capacity bytes) :=
  match capacity with
  | none => .isTrue trivial
  | some n => Nat.decLe bytes.length n

theorem Fits.of_append {a b : Bytes} (h : Fits capacity (a ++ b)) : Fits capacity a := by
  cases capacity with
  | none => trivial
  | some n =>
    have hab : (a ++ b).length ≤ n := h
    rw [List.length_append] at hab
    show a.length ≤ n
    omega

theorem Full.not_fits {a b : Bytes} (h : Full capacity a) (hb : b ≠ []) :
    ¬ Fits capacity (a ++ b) := by
  have hpos : 0 < b.length := List.length_pos_iff.mpr hb
  cases capacity with
  | none => exact absurd h id
  | some n =>
    intro hfits
    have ha : n ≤ a.length := h
    have hab : (a ++ b).length ≤ n := hfits
    rw [List.length_append] at hab
    omega

theorem full_of_not_fits {bytes : Bytes} (h : ¬ Fits capacity bytes) : Full capacity bytes := by
  cases capacity with
  | none => exact absurd trivial h
  | some n => exact Nat.le_of_lt (Nat.lt_of_not_le h)

theorem kept_nil (capacity : Option Nat) : kept capacity [] = [] := by
  cases capacity with
  | none => rfl
  | some n => exact List.take_nil

theorem kept_of_fits {bytes : Bytes} (h : Fits capacity bytes) : kept capacity bytes = bytes := by
  cases capacity with
  | none => rfl
  | some n => exact List.take_of_length_le h

theorem kept_of_full {a : Bytes} (h : Full capacity a) (b : Bytes) :
    kept capacity (a ++ b) = kept capacity a := by
  cases capacity with
  | none => exact absurd h id
  | some n => exact List.take_append_of_le_length h

/-! ### One call -/

/-- The answer of a medium that has no room left. -/
def WhenFull.answer : WhenFull → Answer
  | .fails message => .failed (.other message) (IoError.other_ne_os _ _)
  | .takesNothing => .took 0

/-- What writing to a medium that has no room left comes to. -/
def WhenFull.error : WhenFull → IoError
  | .fails message => .other message
  | .takesNothing => .wroteNothing

theorem answer_of_full {taken offered : Bytes} (h : Full capacity taken) (calls : Nat) :
    (Medium.bounded capacity whenFull flushError).answer (kept capacity taken) calls offered =
      whenFull.answer := by
  cases capacity with
  | none => exact absurd h id
  | some n =>
    have ht : n ≤ taken.length := h
    have hnone : min (n - (taken.take n).length) offered.length = 0 := by
      rw [List.length_take]
      omega
    simp only [Medium.bounded, kept, hnone, if_true]
    cases whenFull <;> rfl

/-- As long as there is room a call takes what fits, and there is none left if that is not all. -/
theorem answer_of_room (whenFull : WhenFull) (flushError : Option String) (calls : Nat)
    {taken offered : Bytes} (h : ¬ Full capacity taken) (hne : offered ≠ []) :
    ∃ k, 0 < k ∧ k ≤ offered.length ∧ Fits capacity (taken ++ offered.take k) ∧
      (Medium.bounded capacity whenFull flushError).answer (kept capacity taken) calls offered =
        .took k := by
  have hpos : 0 < offered.length := List.length_pos_iff.mpr hne
  cases capacity with
  | none =>
    have hsome : ¬ offered.length = 0 := by omega
    refine ⟨offered.length, hpos, Nat.le_refl _, trivial, ?_⟩
    simp only [Medium.bounded, hsome, if_false]
  | some n =>
    have hroom : ¬ n ≤ taken.length := h
    have hkept : taken.take n = taken := List.take_of_length_le (by omega)
    have hsome : ¬ min (n - taken.length) offered.length = 0 := by omega
    refine ⟨min (n - taken.length) offered.length, by omega, by omega, ?_, ?_⟩
    · show (taken ++ offered.take _).length ≤ n
      rw [List.length_append, List.length_take]
      omega
    · simp only [Medium.bounded, kept, hkept, hsome, if_false]

/-! ### All calls -/

/-- The answer to bytes that are written after others have been offered. Nothing is asked of the medium
for the empty byte string. -/
def writeAnswer (capacity : Option Nat) (whenFull : WhenFull) (offered bytes : Bytes) :
    Except IoError Unit :=
  if bytes = [] ∨ Fits capacity (offered ++ bytes) then .ok () else .error whenFull.error

theorem writeAnswer_append {offered a : Bytes} (h : a = [] ∨ Fits capacity (offered ++ a))
    (b : Bytes) :
    writeAnswer capacity whenFull (offered ++ a) b =
      writeAnswer capacity whenFull offered (a ++ b) := by
  by_cases hb : b = []
  · simp only [writeAnswer, hb, List.append_nil, h, true_or, if_true]
  · have hab : ¬ a ++ b = [] := fun hnil => hb (List.append_eq_nil_iff.mp hnil).2
    simp only [writeAnswer, hb, hab, false_or, List.append_assoc]

theorem writeAnswer_append_of_over (whenFull : WhenFull) {offered a : Bytes}
    (h : ¬ (a = [] ∨ Fits capacity (offered ++ a))) (b : Bytes) :
    writeAnswer capacity whenFull offered (a ++ b) = .error whenFull.error := by
  refine if_neg ?_
  rintro (hnil | hfits)
  · exact h (.inl (List.append_eq_nil_iff.mp hnil).1)
  · rw [← List.append_assoc] at hfits
    exact h (.inr hfits.of_append)

/-- A sink over a bounded medium to which `offered` has been offered in all. -/
structure Sink.Holds (sink : Sink) (capacity : Option Nat) (whenFull : WhenFull)
    (flushError : Option String) (offered : Bytes) : Prop where
  medium : sink.medium = .bounded capacity whenFull flushError
  written : sink.written = kept capacity offered

namespace Sink

variable {sink : Sink} {offered : Bytes}

theorem offer_of_full (n : Nat) (b : UInt8) (bytes : Bytes)
    (h : sink.Holds capacity whenFull flushError offered) (hfull : Full capacity offered) :
    offer (n + 1) (b :: bytes) sink =
      (.error whenFull.error, { sink with calls := sink.calls + 1 }) := by
  rw [offer_succ, h.medium, h.written, answer_of_full hfull]
  cases whenFull with
  | fails message => rfl
  | takesNothing =>
    simp only [WhenFull.answer, Nat.zero_min, if_true, List.take_zero, List.append_nil]
    rfl

theorem offer_bounded (n : Nat) (bytes : Bytes) (hn : bytes.length ≤ n)
    (h : sink.Holds capacity whenFull flushError offered) :
    (offer n bytes sink).1 = writeAnswer capacity whenFull offered bytes ∧
      (offer n bytes sink).2.Holds capacity whenFull flushError (offered ++ bytes) := by
  induction n generalizing bytes sink offered with
  | zero =>
    have hb : bytes = [] := List.eq_nil_of_length_eq_zero (Nat.le_zero.mp hn)
    subst hb
    rw [List.append_nil]
    exact ⟨rfl, h⟩
  | succ n ih =>
    cases bytes with
    | nil =>
      rw [List.append_nil]
      exact ⟨rfl, h⟩
    | cons b bytes =>
      have hne : b :: bytes ≠ [] := List.cons_ne_nil b bytes
      by_cases hfull : Full capacity offered
      · have hover := hfull.not_fits hne
        rw [offer_of_full n b bytes h hfull]
        refine ⟨?_, h.medium, ?_⟩
        · simp only [writeAnswer, hne, hover, false_or, if_false]
        · rw [kept_of_full hfull]
          exact h.written
      · obtain ⟨k, hpos, hle, hfits, hanswer⟩ := answer_of_room whenFull flushError
          sink.calls hfull hne
        rw [List.length_cons] at hle
        have hk : min k (bytes.length + 1) = k := by omega
        have hk0 : ¬ k = 0 := by omega
        have hshort : ((b :: bytes).drop k).length ≤ n := by
          rw [List.length_cons] at hn
          rw [List.length_drop, List.length_cons]
          omega
        have hsplit : (offered ++ (b :: bytes).take k) ++ (b :: bytes).drop k =
            offered ++ b :: bytes := by
          rw [List.append_assoc, List.take_append_drop]
        have hnext : Sink.Holds
            { sink with
              written := kept capacity offered ++ (b :: bytes).take k
              calls := sink.calls + 1 }
            capacity whenFull flushError (offered ++ (b :: bytes).take k) := by
          refine ⟨h.medium, ?_⟩
          rw [kept_of_fits hfits, kept_of_fits hfits.of_append]
        -- What is left is offered again, and the answer to it is the answer to all.
        obtain ⟨hresult, hholds⟩ := ih ((b :: bytes).drop k) hshort hnext
        rw [writeAnswer_append (.inr hfits), List.take_append_drop] at hresult
        rw [hsplit] at hholds
        rw [offer_succ, h.medium, h.written, hanswer]
        simp only [hk, hk0, if_false]
        rw [h.medium] at hresult hholds
        exact ⟨hresult, hholds⟩

theorem writePieces_bounded (pieces : List Bytes)
    (h : sink.Holds capacity whenFull flushError offered) :
    (sink.writePieces pieces).1 = writeAnswer capacity whenFull offered pieces.flatten ∧
      (sink.writePieces pieces).2.Holds capacity whenFull flushError
        (offered ++ pieces.flatten) := by
  induction pieces generalizing sink offered with
  | nil =>
    rw [List.flatten_nil, List.append_nil]
    exact ⟨rfl, h⟩
  | cons piece pieces ih =>
    obtain ⟨hpiece, hmid⟩ := offer_bounded piece.length piece (Nat.le_refl _) h
    change (sink.writeAll piece).1 = _ at hpiece
    change (sink.writeAll piece).2.Holds _ _ _ _ at hmid
    rw [List.flatten_cons]
    by_cases hok : piece = [] ∨ Fits capacity (offered ++ piece)
    · obtain ⟨hrest, hholds⟩ := ih hmid
      have hwritten : sink.writeAll piece = (.ok (), (sink.writeAll piece).2) := by
        rw [writeAnswer, if_pos hok] at hpiece
        exact Prod.ext hpiece rfl
      rw [writePieces, hwritten]
      rw [List.append_assoc] at hholds
      exact ⟨hrest.trans (writeAnswer_append hok _), hholds⟩
    · have hover := writeAnswer_append_of_over whenFull hok pieces.flatten
      have hfailed : sink.writeAll piece = (.error whenFull.error, (sink.writeAll piece).2) := by
        rw [writeAnswer, if_neg hok] at hpiece
        exact Prod.ext hpiece rfl
      have hfull : Full capacity (offered ++ piece) := full_of_not_fits fun h => hok (.inr h)
      rw [writePieces, hfailed]
      refine ⟨?_, hmid.medium, ?_⟩
      · exact hover.symm
      · rw [← List.append_assoc, kept_of_full hfull]
        exact hmid.written

end Sink

/-! ### Emitters -/

/-- What a flush answers. -/
def flushAnswer : Option String → Except IoError Unit
  | none => .ok ()
  | some message => .error (.other message)

/-- The answer to a record, given the bytes of all records up to it. -/
def emitAnswer (capacity : Option Nat) (whenFull : WhenFull) (flushError : Option String)
    (offered : Bytes) : Except IoError Unit :=
  if Fits capacity offered then flushAnswer flushError else .error whenFull.error

theorem recordBytes_ne_nil (e : Entry) : recordBytes e ≠ [] := by
  intro h
  have hlength := congrArg List.length h
  rw [recordBytes, List.length_append, List.length_singleton, List.length_nil] at hlength
  omega

namespace Emitter

theorem emit_bounded {emitter : Emitter} {sink : Sink} {offered : Bytes}
    (hs : emitter.sink = some sink) (h : sink.Holds capacity whenFull flushError offered)
    (e : Entry) :
    (emitter.emit e).1 = emitAnswer capacity whenFull flushError (offered ++ recordBytes e) ∧
      ∃ sink', (emitter.emit e).2 = { emitter with sink := some sink' } ∧
        sink'.Holds capacity whenFull flushError (offered ++ recordBytes e) := by
  obtain ⟨hanswer, hholds⟩ := Sink.writePieces_bounded (pieces e) h
  rw [flatten_pieces] at hanswer hholds
  have hflush : (sink.writePieces (pieces e)).2.flush = flushAnswer flushError := by
    rw [Sink.flush, hholds.medium]
    cases flushError <;> rfl
  rw [writeAnswer] at hanswer
  refine ⟨?_, _, emit_toSink hs e, hholds⟩
  have hne := recordBytes_ne_nil e
  cases hw : sink.writePieces (pieces e) with
  | mk result sink' =>
    rw [hw] at hanswer hflush
    dsimp only at hanswer hflush
    by_cases hfits : Fits capacity (offered ++ recordBytes e)
    · rw [if_pos (.inr hfits)] at hanswer
      rw [emitAnswer, if_pos hfits]
      simp only [emit, hs, hw, hanswer, hflush]
    · rw [if_neg (fun h => h.elim hne hfits)] at hanswer
      rw [emitAnswer, if_neg hfits]
      simp only [emit, hs, hw, hanswer]

/-- The bytes of all records up to and with the `i`-th. -/
def offeredUpTo (entries : List Entry) (i : Nat) : Bytes := (entries.take (i + 1)).flatMap recordBytes

theorem emitAll_of_holds {emitter : Emitter} {sink : Sink} {offered : Bytes} (entries : List Entry)
    (hs : emitter.sink = some sink) (h : sink.Holds capacity whenFull flushError offered) :
    (emitter.emitAll entries).1 = (List.range entries.length).map (fun i =>
        emitAnswer capacity whenFull flushError (offered ++ offeredUpTo entries i)) ∧
      (emitter.emitAll entries).2.written =
        kept capacity (offered ++ entries.flatMap recordBytes) := by
  induction entries generalizing emitter sink offered with
  | nil =>
    refine ⟨rfl, ?_⟩
    rw [List.flatMap_nil, List.append_nil, emitAll, Emitter.written, hs]
    exact h.written
  | cons e entries ih =>
    obtain ⟨hfirst, sink', hsink, hholds⟩ := emit_bounded hs h e
    have hs' : (emitter.emit e).2.sink = some sink' := by rw [hsink]
    obtain ⟨hrest, hwritten⟩ := ih hs' hholds
    refine ⟨?_, ?_⟩
    · have hzero : offeredUpTo (e :: entries) 0 = recordBytes e := List.append_nil _
      have hsucc (i : Nat) : offered ++ offeredUpTo (e :: entries) (i + 1) =
          offered ++ recordBytes e ++ offeredUpTo entries i := (List.append_assoc _ _ _).symm
      rw [List.length_cons, List.range_succ_eq_map, List.map_cons, List.map_map, hzero, ← hfirst]
      refine congrArg (List.cons _) (hrest.trans (List.map_congr_left fun i _ => ?_))
      rw [Function.comp_apply, hsucc]
    · rw [emitAll, List.flatMap_cons, ← List.append_assoc]
      exact hwritten

theorem emitAll_disabled (count : Nat) (host runId : String) (entries : List Entry) :
    (Emitter.mk none count host runId).emitAll entries =
      (List.replicate entries.length (.ok ()), Emitter.mk none count host runId) := by
  induction entries with
  | nil => rfl
  | cons e entries ih =>
    have hemit : (Emitter.mk none count host runId).emit e =
        (.ok (), Emitter.mk none count host runId) := rfl
    rw [emitAll, hemit, ih, List.length_cons, List.replicate_succ]

/-- Whatever records are written to a sink with limited room, it keeps the first bytes of all lines,
and a call succeeds exactly if all bytes up to its own fit and the flush does not fail. An emitter
without a sink answers that all is well. -/
theorem emitAll_bounded (capacity : Option Nat) (whenFull : WhenFull) (flushError : Option String)
    (count : Nat) (host runId : String) (entries : List Entry) :
    let sink := Sink.new (.bounded capacity whenFull flushError)
    let logged := (Emitter.mk (some sink) count host runId).emitAll entries
    let dropped := (Emitter.mk none count host runId).emitAll entries
    logged.2.written = kept capacity (entries.flatMap recordBytes) ∧
      logged.1 = (List.range entries.length).map (fun i =>
        emitAnswer capacity whenFull flushError (offeredUpTo entries i)) ∧
      dropped.1 = List.replicate entries.length (.ok ()) ∧ dropped.2.written = [] := by
  intro sink logged dropped
  have hnew : sink.Holds capacity whenFull flushError [] := ⟨rfl, (kept_nil capacity).symm⟩
  have hdropped := emitAll_disabled count host runId entries
  have hsink : (Emitter.mk (some sink) count host runId).sink = some sink := rfl
  obtain ⟨hanswers, hwritten⟩ := emitAll_of_holds entries hsink hnew
  refine ⟨hwritten, hanswers, ?_, ?_⟩
  · exact congrArg Prod.fst hdropped
  · exact congrArg (fun r => r.2.written) hdropped

end Emitter
end LoaderBench.Log
