import LoaderBench.Log.Use
import LoaderBench.Proofs.Log.Writing
import LoaderBench.Proofs.Text.Padded

/-!
# The numbers of records

An emitter numbers the records it starts from one on, and what is written in between plays no part.
Host, run and number are read off the id again if there is no colon in the name of the host: the host
ends at the first colon, the number begins behind the last one, and the run is what is left between two
colons each. So it may hold colons and digits itself.
-/

namespace LoaderBench.Log

open LoaderBench.Text LoaderBench.Time

/-! ### Reading ids -/

/-- Host, run and number of a record, given its id. -/
def idParts (id : String) : String × String × Nat :=
  let host := id.toList.takeWhile (· != ':')
  let behind := id.toList.drop (host.length + 2)
  let number := (behind.reverse.takeWhile Char.isDigit).reverse
  let run := behind.take (behind.length - (number.length + 2))
  (String.ofList host, String.ofList run, Nat.ofDigitChars 10 number 0)

variable {host runId : String}

theorem toList_traceId (host runId : String) (number : Nat) : (traceId host runId number).toList =
    host.toList ++ ':' :: ':' :: (runId.toList ++ ':' :: ':' :: (padded 3 number).toList) := by
  simp [traceId]

/-- The digits at the end of a text, if no digit stands right before them. -/
theorem last_digits {ds : List Char} {c : Char} (cs : List Char) (hds : ∀ d ∈ ds, d.isDigit = true)
    (hc : c.isDigit = false) : ((cs ++ c :: ds).reverse.takeWhile Char.isDigit).reverse = ds := by
  have hreverse : (cs ++ c :: ds).reverse = ds.reverse ++ c :: cs.reverse := by simp
  have hdigits : ∀ d ∈ ds.reverse, d.isDigit = true := by
    intro d hd
    exact hds d (List.mem_reverse.mp hd)
  have hhead : ∀ d ∈ (c :: cs.reverse).head?, d.isDigit = false := by
    intro d hd
    cases hd
    exact hc
  rw [hreverse, takeWhile_front hdigits hhead, List.reverse_reverse]

theorem idParts_traceId (h : ':' ∉ host.toList) (runId : String) (number : Nat) :
    idParts (traceId host runId number) = (host, runId, number) := by
  have hfilled : Filled 3 number (padded 3 number).toList := filled_padded number (by decide)
  have hlist := toList_traceId host runId number
  generalize (padded 3 number).toList = ds at hfilled hlist
  have hhost : (traceId host runId number).toList.takeWhile (· != ':') = host.toList := by
    rw [hlist]
    exact takeWhile_bne h _
  have hbehind : (traceId host runId number).toList.drop (host.toList.length + 2) =
      runId.toList ++ ':' :: ':' :: ds := by
    rw [hlist, List.drop_append]
    simp
  have hnumber : ((runId.toList ++ ':' :: ':' :: ds).reverse.takeWhile Char.isDigit).reverse = ds := by
    have hcolon : ':'.isDigit = false := by decide
    have hlast := last_digits (runId.toList ++ [':']) hfilled.isDigit hcolon
    simpa only [List.append_assoc, List.singleton_append] using hlast
  have hrun : (runId.toList ++ ':' :: ':' :: ds).take
      ((runId.toList ++ ':' :: ':' :: ds).length - (ds.length + 2)) = runId.toList := by
    apply List.take_left'
    simp
  simp only [idParts, hhost, hbehind, hnumber, hrun, hfilled.value, String.ofList_toList]

/-- Ids of hosts without a colon tell hosts, runs and numbers apart. -/
theorem traceId_inj {host' runId' : String} {number number' : Nat} (h : ':' ∉ host.toList)
    (h' : ':' ∉ host'.toList) (heq : traceId host runId number = traceId host' runId' number') :
    host = host' ∧ runId = runId' ∧ number = number' := by
  have hparts := congrArg idParts heq
  rw [idParts_traceId h, idParts_traceId h'] at hparts
  simpa using hparts

/-! ### Numbering -/

namespace Emitter

/-- `after` is `emitter` once it has started the `records`, which are `n`. -/
structure Numbers (emitter : Emitter) (n : Nat) (records : List Entry) (after : Emitter) : Prop where
  host : after.host = emitter.host
  runId : after.runId = emitter.runId
  count : after.count = emitter.count + n
  ids : records.map Entry.traceId =
    (List.range' (emitter.count + 1) n).map (traceId emitter.host emitter.runId)

variable {emitter mid after : Emitter} {m n : Nat} {first rest : List Entry}

theorem Numbers.refl (emitter : Emitter) : Numbers emitter 0 [] emitter := ⟨rfl, rfl, rfl, rfl⟩

theorem Numbers.append (h : Numbers emitter m first mid) (h' : Numbers mid n rest after) :
    Numbers emitter (m + n) (first ++ rest) after := by
  constructor
  case host => exact h'.host.trans h.host
  case runId => exact h'.runId.trans h.runId
  case count => rw [h'.count, h.count, Nat.add_assoc]
  case ids =>
    have hstart : emitter.count + m + 1 = emitter.count + 1 + m := by omega
    rw [List.map_append, h.ids, h'.ids, h.host, h.runId, h.count, hstart, ← List.map_append,
      List.range'_append_1]

theorem numbers_emit (emitter : Emitter) (record : Entry) :
    Numbers emitter 0 [] (emitter.emit record).2 := by
  cases hs : emitter.sink with
  | none =>
    simp only [emit, hs]
    exact .refl emitter
  | some sink =>
    rw [emit_toSink hs]
    exact ⟨rfl, rfl, rfl, rfl⟩

/-- What one use starts is numbered on. -/
theorem use?_numbers (emitter : Emitter) (use : Use)
    (h : emitter.count + [use].countP Use.starts < 0x10000000000000000) :
    ∃ records after, emitter.use? use = some (records, after) ∧
      Numbers emitter ([use].countP Use.starts) records after := by
  cases use with
  | entry now level event =>
    refine ⟨_, _, if_pos h, ?_⟩
    exact ⟨rfl, rfl, rfl, rfl⟩
  | emit record => exact ⟨_, _, rfl, numbers_emit emitter record⟩

theorem useAll?_numbers (emitter : Emitter) (uses : List Use)
    (h : emitter.count + uses.countP Use.starts < 0x10000000000000000) :
    ∃ records after, emitter.useAll? uses = some (records, after) ∧
      Numbers emitter (uses.countP Use.starts) records after := by
  induction uses generalizing emitter with
  | nil => exact ⟨_, _, rfl, .refl emitter⟩
  | cons use uses ih =>
    have hcount : ([use] ++ uses).countP Use.starts =
        [use].countP Use.starts + uses.countP Use.starts := List.countP_append
    rw [List.singleton_append] at hcount
    rw [hcount] at h ⊢
    obtain ⟨first, mid, hfirst, hnumbers⟩ := emitter.use?_numbers use (by omega)
    obtain ⟨rest, after, hrest, hnumbers'⟩ := ih mid (by rw [hnumbers.count]; omega)
    refine ⟨first ++ rest, after, ?_, hnumbers.append hnumbers'⟩
    simp only [useAll?, hfirst, hrest, Option.bind_eq_bind, Option.bind_some]

/-- Whatever is written, and however the sink answers, the records that an emitter starts are numbered
one after another. If there is no colon in the name of the host, then host, run and number are found in
each id, and an id that any such host makes is this one only for the same run and number. -/
theorem trace_ids_tell_records (sink : Option Sink) (host runId : String) (uses : List Use)
    (h : uses.countP Use.starts < 0x10000000000000000) :
    ∃ records after, (Emitter.mk sink 0 host runId).useAll? uses = some (records, after) ∧
      records.map Entry.traceId = (List.range' 1 (uses.countP Use.starts)).map (fun number =>
        host ++ "::" ++ runId ++ "::" ++ padded 3 number) ∧
      (':' ∉ host.toList → ∀ k record, records[k]? = some record →
        idParts record.traceId = (host, runId, k + 1) ∧
        ∀ host' runId' number', ':' ∉ host'.toList →
          record.traceId = traceId host' runId' number' →
          host' = host ∧ runId' = runId ∧ number' = k + 1) := by
  obtain ⟨records, after, hrun, hnumbers⟩ :=
    useAll?_numbers (Emitter.mk sink 0 host runId) uses (by rw [Nat.zero_add]; exact h)
  refine ⟨records, after, hrun, hnumbers.ids, ?_⟩
  intro hhost k record hrecord
  have hid : record.traceId = traceId host runId (k + 1) := by
    have hnumber := congrArg (·[k]?) hnumbers.ids
    simp only [List.getElem?_map, hrecord, Option.map_some] at hnumber
    obtain ⟨number, hrange, hname⟩ := Option.map_eq_some_iff.mp hnumber.symm
    obtain ⟨_, hplace⟩ := List.getElem?_eq_some_iff.mp hrange
    simp only [List.getElem_range'] at hplace
    have hnext : number = k + 1 := by omega
    rw [← hname, hnext]
  constructor
  · rw [hid, idParts_traceId hhost]
  · intro host' runId' number' hhost' heq
    obtain ⟨rfl, rfl, rfl⟩ := traceId_inj hhost' hhost (heq.symm.trans hid)
    exact ⟨rfl, rfl, rfl⟩

/-- A run whose name ends in a colon is told from the run without it, though the first write fails and
the record is written again after the next one is started. -/
theorem trailing_colon_told_apart :
    let sink := Sink.new (.bounded (some 10) (.fails "full") none)
    let record := started "host" "run:" 1 ⟨0, 0⟩ .info "load_start"
    let uses := [.entry ⟨0, 0⟩ .info "load_start", .emit record, .entry ⟨0, 1⟩ .error "load_failed",
      .emit record]
    uses.countP Use.starts < 0x10000000000000000 ∧ ':' ∉ "host".toList ∧
      ∃ records after, (Emitter.mk (some sink) 0 "host" "run:").useAll? uses = some (records, after) ∧
        records.map Entry.traceId = ["host::run:::001", "host::run:::002"] ∧
        ∀ record ∈ records, record.traceId ≠ traceId "host" "run" 1 := by
  intro sink record uses
  have hcount : uses.countP Use.starts < 0x10000000000000000 := by decide
  have hhost : ':' ∉ "host".toList := by decide
  obtain ⟨records, after, hrun, hids, htold⟩ :=
    trace_ids_tell_records (some sink) "host" "run:" uses hcount
  refine ⟨hcount, hhost, records, after, hrun, hids.trans (by decide +kernel), ?_⟩
  intro record hrecord heq
  obtain ⟨k, hk⟩ := List.getElem?_of_mem hrecord
  obtain ⟨-, hrun', -⟩ := (htold hhost k record hk).2 "host" "run" 1 hhost heq
  exact absurd hrun' (by decide)

end Emitter
end LoaderBench.Log
