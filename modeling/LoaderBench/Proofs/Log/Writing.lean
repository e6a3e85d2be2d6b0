import LoaderBench.Log.Emitter

/-!
# Writing records

Whatever a medium answers, the bytes that reach a sink are a first part of the bytes offered, and all
of them if no call failed. On a medium that always takes something no call fails, so an emitter over it
appends the bytes of each record it is given, and nothing else.
-/

namespace LoaderBench.Log

open LoaderBench.Platform LoaderBench.Time

/-! ### Sinks -/

/-- What has become of a sink after bytes were offered to it. -/
structure Grown (bytes : Bytes) (sink : Sink) (result : Except IoError Unit) (sink' : Sink) :
    Prop where
  medium : sink'.medium = sink.medium
  part : ∃ taken rest, taken ++ rest = bytes ∧ sink'.written = sink.written ++ taken ∧
    (result = .ok () → rest = [])

theorem Grown.written_of_ok {bytes : Bytes} {sink sink' : Sink} {result : Except IoError Unit}
    (h : Grown bytes sink result sink') (hr : result = .ok ()) :
    sink'.written = sink.written ++ bytes := by
  obtain ⟨taken, rest, hb, hw, hok⟩ := h.part
  have hrest := hok hr
  subst hrest
  rw [hw, ← hb, List.append_nil]

theorem Grown.none {bytes : Bytes} {sink sink' : Sink} {error : IoError}
    (hm : sink'.medium = sink.medium) (hw : sink'.written = sink.written) :
    Grown bytes sink (.error error) sink' := by
  refine ⟨hm, [], bytes, rfl, ?_, fun h => by cases h⟩
  rw [hw, List.append_nil]

theorem Grown.append {first bytes : Bytes} {sink mid sink' : Sink} {result : Except IoError Unit}
    (h : Grown bytes mid result sink') (hm : mid.medium = sink.medium)
    (hw : mid.written = sink.written ++ first) : Grown (first ++ bytes) sink result sink' := by
  obtain ⟨taken, rest, hb, hw', hok⟩ := h.part
  refine ⟨h.medium.trans hm, first ++ taken, rest, ?_, ?_, hok⟩
  · rw [List.append_assoc, hb]
  · rw [hw', hw, List.append_assoc]

namespace Sink

theorem write_took {sink : Sink} {offered : Bytes} {count : Nat}
    (h : sink.medium.answer sink.written sink.calls offered = .took count) :
    sink.write offered = (.ok (min count offered.length),
      { sink with
        written := sink.written ++ offered.take (min count offered.length)
        calls := sink.calls + 1 }) := by
  simp only [write, h]

theorem write_failed {sink : Sink} {offered : Bytes} {error : IoError}
    {final : error ≠ .os interrupted}
    (h : sink.medium.answer sink.written sink.calls offered = .failed error final) :
    sink.write offered = (.error error, { sink with calls := sink.calls + 1 }) := by
  simp only [write, h]

/-- One more call of `offer`: it fails, or takes nothing, or goes on with what is left. -/
theorem offer_succ (n : Nat) (b : UInt8) (bytes : Bytes) (sink : Sink) :
    offer (n + 1) (b :: bytes) sink =
      match sink.medium.answer sink.written sink.calls (b :: bytes) with
      | .failed error _ => (.error error, { sink with calls := sink.calls + 1 })
      | .took count =>
        let k := min count (bytes.length + 1)
        let after : Sink := { sink with
          written := sink.written ++ (b :: bytes).take k
          calls := sink.calls + 1 }
        if k = 0 then (.error .wroteNothing, after) else offer n ((b :: bytes).drop k) after := by
  cases ha : sink.medium.answer sink.written sink.calls (b :: bytes) with
  | failed error final => simp only [offer, write_failed ha]
  | took count =>
    simp only [offer, write_took ha, List.length_cons]
    cases hk : min count (bytes.length + 1) with
    | zero => simp
    | succ k => simp

theorem grown_offer (n : Nat) (bytes : Bytes) (hn : bytes.length ≤ n) (sink : Sink) :
    Grown bytes sink (offer n bytes sink).1 (offer n bytes sink).2 := by
  induction n generalizing bytes sink with
  | zero =>
    have hb : bytes = [] := List.eq_nil_of_length_eq_zero (Nat.le_zero.mp hn)
    subst hb
    exact ⟨rfl, [], [], rfl, (List.append_nil _).symm, fun _ => rfl⟩
  | succ n ih =>
    cases bytes with
    | nil => exact ⟨rfl, [], [], rfl, (List.append_nil _).symm, fun _ => rfl⟩
    | cons b bytes =>
      rw [offer_succ]
      cases sink.medium.answer sink.written sink.calls (b :: bytes) with
      | failed error final => exact .none rfl rfl
      | took count =>
        dsimp only
        generalize hk : min count (bytes.length + 1) = k
        by_cases h0 : k = 0
        · rw [if_pos h0]
          exact .none rfl (by simp [h0])
        · rw [if_neg h0]
          have hlen : ((b :: bytes).drop k).length ≤ n := by
            simp only [List.length_drop, List.length_cons] at hn ⊢
            omega
          have hgrown := ih ((b :: bytes).drop k) hlen
            { sink with written := sink.written ++ (b :: bytes).take k, calls := sink.calls + 1 }
          have hwhole : Grown ((b :: bytes).take k ++ (b :: bytes).drop k) sink _ _ :=
            .append hgrown rfl rfl
          rwa [List.take_append_drop] at hwhole

theorem grown_writeAll (bytes : Bytes) (sink : Sink) :
    Grown bytes sink (sink.writeAll bytes).1 (sink.writeAll bytes).2 :=
  grown_offer bytes.length bytes (Nat.le_refl _) sink

theorem grown_writePieces (pieces : List Bytes) (sink : Sink) :
    Grown pieces.flatten sink (sink.writePieces pieces).1 (sink.writePieces pieces).2 := by
  induction pieces generalizing sink with
  | nil => exact ⟨rfl, [], [], rfl, (List.append_nil _).symm, fun _ => rfl⟩
  | cons piece pieces ih =>
    have hpiece := grown_writeAll piece sink
    simp only [writePieces, List.flatten_cons]
    cases hw : sink.writeAll piece with
    | mk result mid =>
      rw [hw] at hpiece
      cases result with
      | ok u => exact (ih mid).append hpiece.medium (hpiece.written_of_ok rfl)
      | error error =>
        obtain ⟨taken, rest, hb, hwritten, -⟩ := hpiece.part
        refine ⟨hpiece.medium, taken, rest ++ pieces.flatten, ?_, hwritten, fun h => by cases h⟩
        rw [← List.append_assoc, hb]

end Sink

/-! ### Media that accept everything -/

/-- A medium that takes at least one of the bytes it is offered, and never fails to. -/
def Medium.Accepting (medium : Medium) : Prop :=
  ∀ written calls offered, offered ≠ [] →
    ∃ count, 0 < count ∧ medium.answer written calls offered = .took count

theorem Medium.accepting_unlimited : Medium.unlimited.Accepting := by
  intro written calls offered hne
  have hlen : offered.length ≠ 0 := fun h => hne (List.eq_nil_of_length_eq_zero h)
  exact ⟨offered.length, Nat.pos_of_ne_zero hlen, by simp [unlimited, bounded, hne]⟩

namespace Sink

theorem offer_ok (n : Nat) (bytes : Bytes) (hn : bytes.length ≤ n) (sink : Sink)
    (ha : sink.medium.Accepting) : (offer n bytes sink).1 = .ok () := by
  induction n generalizing bytes sink with
  | zero =>
    have hb : bytes = [] := List.eq_nil_of_length_eq_zero (Nat.le_zero.mp hn)
    subst hb
    rfl
  | succ n ih =>
    cases bytes with
    | nil => rfl
    | cons b bytes =>
      obtain ⟨count, hpos, hans⟩ := ha sink.written sink.calls (b :: bytes) (List.cons_ne_nil _ _)
      have hk : min count (bytes.length + 1) ≠ 0 := by omega
      rw [offer_succ, hans]
      dsimp only
      rw [if_neg hk]
      refine ih _ ?_ _ ha
      simp only [List.length_drop, List.length_cons] at hn ⊢
      omega

theorem writePieces_ok (pieces : List Bytes) (sink : Sink) (ha : sink.medium.Accepting) :
    (sink.writePieces pieces).1 = .ok () := by
  induction pieces generalizing sink with
  | nil => rfl
  | cons piece pieces ih =>
    have hok : (sink.writeAll piece).1 = .ok () := offer_ok _ piece (Nat.le_refl _) sink ha
    have hmedium := (grown_writeAll piece sink).medium
    cases hw : sink.writeAll piece with
    | mk result mid =>
      rw [hw] at hok hmedium
      dsimp only at hok hmedium
      subst hok
      simp only [writePieces, hw]
      exact ih mid (hmedium ▸ ha)

end Sink

/-! ### Emitters -/

/-- The bytes of a record: its line and a line break. -/
def recordBytes (e : Entry) : Bytes := Utf8.encode e.line ++ [10]

theorem flatten_pieces (e : Entry) : (pieces e).flatten = recordBytes e := by
  simp [pieces, recordBytes]

/-- The `number`-th record that an emitter starts. -/
def started (host runId : String) (number : Nat) (now : Moment) (level : Level) (event : String) :
    Entry :=
  { Entry.new now (traceId host runId number) level event with host := some host }

namespace Emitter

theorem entry_eq (emitter : Emitter) (now : Moment) (level : Level) (event : String) :
    emitter.entry now level event =
      (started emitter.host emitter.runId (emitter.count + 1) now level event,
        { emitter with count := emitter.count + 1 }) := rfl

theorem emit_toSink {emitter : Emitter} {sink : Sink} (hs : emitter.sink = some sink) (e : Entry) :
    (emitter.emit e).2 = { emitter with sink := some (sink.writePieces (pieces e)).2 } := by
  simp only [emit, hs]
  cases hw : sink.writePieces (pieces e) with
  | mk result sink' => cases result <;> rfl

/-- An emitter over a medium that accepts everything, in a run in which it has started `count` records
and after which its sink holds `log`. -/
structure Logs (emitter : Emitter) (host runId : String) (count : Nat) (log : Bytes) : Prop where
  host : emitter.host = host
  runId : emitter.runId = runId
  count : emitter.count = count
  sink : ∃ sink, emitter.sink = some sink ∧ sink.medium.Accepting ∧ sink.written = log

variable {emitter : Emitter} {host runId : String} {count : Nat} {log : Bytes}

theorem Logs.written (h : emitter.Logs host runId count log) : emitter.written = log := by
  obtain ⟨sink, hs, -, hw⟩ := h.sink
  simp only [Emitter.written, hs, hw]

theorem Logs.entry (h : emitter.Logs host runId count log) (now : Moment) (level : Level)
    (event : String) :
    (emitter.entry now level event).1 = started host runId (count + 1) now level event ∧
      (emitter.entry now level event).2.Logs host runId (count + 1) log := by
  rw [entry_eq]
  refine ⟨?_, h.host, h.runId, congrArg (· + 1) h.count, h.sink⟩
  rw [h.host, h.runId, h.count]

theorem Logs.emit (h : emitter.Logs host runId count log) (e : Entry) :
    (emitter.emit e).2.Logs host runId count (log ++ recordBytes e) := by
  obtain ⟨sink, hs, ha, hw⟩ := h.sink
  have hgrown := sink.grown_writePieces (pieces e)
  have hok := sink.writePieces_ok (pieces e) ha
  rw [emit_toSink hs]
  refine ⟨h.host, h.runId, h.count, _, rfl, ?_, ?_⟩
  · rw [hgrown.medium]
    exact ha
  · rw [hgrown.written_of_ok hok, hw, flatten_pieces]

end Emitter
end LoaderBench.Log
