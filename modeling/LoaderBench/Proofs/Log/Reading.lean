import LoaderBench.Log.Validation
import LoaderBench.Proofs.Json.Object
import LoaderBench.Proofs.Log.Writing
import LoaderBench.Proofs.Text.Lines
import LoaderBench.Proofs.Text.Utf8

/-!
# Records are read back

The line of a record is valid and holds exactly the record, whatever texts and numbers are in it. A
line has no line break within. So an emitter whose sink takes everything leaves a text with one valid
line for each record, in order.
-/

namespace LoaderBench.Log

open LoaderBench.Json LoaderBench.Text LoaderBench.Platform

/-! ### Fields -/

/-- A way to write the values of a type as scalars other than null, and a way to read them back. -/
structure Carries {α : Type} (write : α → Value) (read : Value → Except Mismatch α) : Prop where
  scalar : ∀ a, ∃ s : Scalar, write a = .scalar s ∧ s.Readable ∧ s ≠ .null
  back : ∀ a, read (write a) = .ok a

theorem carries_text : Carries Value.text textOf :=
  ⟨fun s => ⟨.text s, rfl, trivial, by simp⟩, fun _ => rfl⟩

theorem carries_int32 : Carries (fun i : Int32 => Value.integer i.toInt) int32Of := by
  refine ⟨fun i => ?_, fun i => ?_⟩
  · have hlow := i.le_toInt
    have hhigh := i.toInt_lt
    exact ⟨.number (.integer i.toInt), rfl, ⟨by omega, by omega⟩, by simp⟩
  · have hrange := And.intro i.minValue_le_toInt i.toInt_le
    simp only [int32Of, wholeBetween, hrange, and_self, if_true, Except.map, Int32.ofInt_toInt]

theorem carries_level : Carries (fun level : Level => Value.text level.name) levelOf := by
  refine ⟨fun level => ⟨.text level.name, rfl, trivial, by simp⟩, fun level => ?_⟩
  simp only [levelOf, variantNamed, lookup_levels]

namespace Carries

variable {α : Type} {write : α → Value} {read : Value → Except Mismatch α}

theorem flat (h : Carries write read) (field : String) (a : α) : Flat [(field, write a)] := by
  obtain ⟨s, hs, hread, -⟩ := h.scalar a
  intro m hm
  rw [List.mem_singleton.mp hm]
  exact ⟨s, hs, hread⟩

theorem flat_optional (h : Carries write read) (field : String) (o : Option α) :
    Flat (Entry.optional field (o.map write)) := by
  cases o with
  | none => exact fun m hm => absurd hm List.not_mem_nil
  | some a => exact h.flat field a

theorem required (h : Carries write read) {ms : Members} {field : String} {a : α}
    (hm : lookup field ms = some (write a)) : required ms field read = .ok a := by
  simp only [Log.required, hm, h.back]

theorem allowed (h : Carries write read) {ms : Members} {field : String} {o : Option α}
    (hm : lookup field ms = o.map write) : allowed ms field read = .ok o := by
  cases o with
  | none => simp only [Log.allowed, hm, Option.map_none]
  | some a =>
    obtain ⟨s, hs, -, hnull⟩ := h.scalar a
    have hback := h.back a
    rw [hs] at hback
    simp only [Log.allowed, hm, Option.map_some, hs]
    split
    · cases ‹some _ = none›
    · rename_i heq
      cases heq
      exact absurd rfl hnull
    · rename_i heq
      cases heq
      rw [hback]
      rfl

end Carries

/-! ### The members of a record -/

theorem lookup_optional (key field : String) (o : Option Value) :
    lookup key (Entry.optional field o) = if field = key then o else none := by
  cases o with
  | none => simp [Entry.optional, lookup]
  | some v => simp [Entry.optional, lookup]

namespace Entry

theorem flat_members (e : Entry) : Flat e.members := by
  have hfixed : Flat [("timestamp", .text e.timestamp), ("trace_id", .text e.traceId),
      ("level", .text e.level.name), ("event", .text e.event)] :=
    (carries_text.flat "timestamp" _).append <| (carries_text.flat "trace_id" _).append <|
      (carries_text.flat "level" _).append (carries_text.flat "event" _)
  exact (((((((hfixed.append (carries_text.flat_optional "host" e.host)).append
    (carries_text.flat_optional "mode" e.mode)).append
    (carries_text.flat_optional "target" e.target)).append
    (carries_text.flat_optional "symbol" e.symbol)).append
    (carries_int32.flat_optional "fixture_id" e.fixtureId)).append
    (carries_int32.flat_optional "os_code" e.osCode)).append
    (carries_int32.flat_optional "exit_code" e.exitCode)).append
    (carries_text.flat_optional "detail" e.detail)

/-- What stands under a key. Every key occurs once at most, so one of the alternatives is left. -/
theorem lookup_members (e : Entry) (key : String) :
    lookup key e.members =
      (if "detail" = key then e.detail.map .text else none).or
      ((if "exit_code" = key then e.exitCode.map fun i => .integer i.toInt else none).or
      ((if "os_code" = key then e.osCode.map fun i => .integer i.toInt else none).or
      ((if "fixture_id" = key then e.fixtureId.map fun i => .integer i.toInt else none).or
      ((if "symbol" = key then e.symbol.map .text else none).or
      ((if "target" = key then e.target.map .text else none).or
      ((if "mode" = key then e.mode.map .text else none).or
      ((if "host" = key then e.host.map .text else none).or
      (lookup key [("timestamp", .text e.timestamp), ("trace_id", .text e.traceId),
        ("level", .text e.level.name), ("event", .text e.event)])))))))) := by
  simp only [members, lookup_append, lookup_optional]

theorem omissions_members (e : Entry) : omissions e.members = [] := by
  have hlevel := lookup_levels e.level
  simp [omissions, requiredFields, lookup_members, lookup, hlevel]

theorem entryOf_members (e : Entry) : entryOf e.members = .ok e := by
  have hdetail : lookup "detail" e.members = e.detail.map .text := by
    simp [lookup_members, lookup]
  have hevent : lookup "event" e.members = some (.text e.event) := by
    simp [lookup_members, lookup]
  have hexit : lookup "exit_code" e.members = e.exitCode.map fun i => .integer i.toInt := by
    simp [lookup_members, lookup]
  have hfixture : lookup "fixture_id" e.members = e.fixtureId.map fun i => .integer i.toInt := by
    simp [lookup_members, lookup]
  have hhost : lookup "host" e.members = e.host.map .text := by
    simp [lookup_members, lookup]
  have hlevel : lookup "level" e.members = some (.text e.level.name) := by
    simp [lookup_members, lookup]
  have hmode : lookup "mode" e.members = e.mode.map .text := by
    simp [lookup_members, lookup]
  have hcode : lookup "os_code" e.members = e.osCode.map fun i => .integer i.toInt := by
    simp [lookup_members, lookup]
  have hsymbol : lookup "symbol" e.members = e.symbol.map .text := by
    simp [lookup_members, lookup]
  have htarget : lookup "target" e.members = e.target.map .text := by
    simp [lookup_members, lookup]
  have htimestamp : lookup "timestamp" e.members = some (.text e.timestamp) := by
    simp [lookup_members, lookup]
  have htrace : lookup "trace_id" e.members = some (.text e.traceId) := by
    simp [lookup_members, lookup]
  simp only [entryOf, carries_text.allowed hdetail, carries_text.required hevent,
    carries_int32.allowed hexit, carries_int32.allowed hfixture, carries_text.allowed hhost,
    carries_level.required hlevel, carries_text.allowed hmode, carries_int32.allowed hcode,
    carries_text.allowed hsymbol, carries_text.allowed htarget, carries_text.required htimestamp,
    carries_text.required htrace]
  rfl

theorem check_line (e : Entry) : check e.line = .ok e := by
  simp only [check, line, parse_compact e.flat_members, omissions_members, entryOf_members]
  rfl

theorem validate_line (e : Entry) (number : UInt64) : validate e.line number = .ok e := by
  rw [validate, check_line]
  rfl

theorem unbroken_line (e : Entry) : Unbroken e.line.toList := by
  have hplain := plain_compactText e.flat_members
  rw [← String.toList_ofList (l := compactText (.object e.members))] at hplain
  intro c hc
  have hcontrol : ¬ c < ' ' := hplain c hc
  refine ⟨?_, ?_⟩
  · intro he
    subst he
    exact hcontrol (by decide)
  · intro he
    subst he
    exact hcontrol (by decide)

end Entry

/-! ### Whole logs -/

/-- The text of a log: each record on a line of its own. -/
def logText (entries : List Entry) : String := String.join (entries.map fun e => e.line ++ "\n")

theorem encode_logText (entries : List Entry) :
    Utf8.encode (logText entries) = entries.flatMap recordBytes := by
  have hbreak : Utf8.encode "\n" = [10] := by decide
  induction entries with
  | nil => rfl
  | cons e entries ih =>
    rw [logText, List.map_cons, String.join_cons, Utf8.encode_append, Utf8.encode_append, hbreak]
    exact congrArg (recordBytes e ++ ·) ih

theorem lines_logText (entries : List Entry) : lines (logText entries) = entries.map Entry.line := by
  have hlines : ∀ l ∈ entries.map Entry.line, Unbroken l.toList := by
    intro l hl
    obtain ⟨e, -, rfl⟩ := List.mem_map.mp hl
    exact e.unbroken_line
  have hjoin := lines_join hlines
  rwa [List.map_map] at hjoin

namespace Emitter

/-- Writes records one after another, whether or not writing succeeds, and keeps the answers. -/
def emitAll (emitter : Emitter) : List Entry → List (Except IoError Unit) × Emitter
  | [] => ([], emitter)
  | e :: entries =>
    let first := emitter.emit e
    let rest := first.2.emitAll entries
    (first.1 :: rest.1, rest.2)

variable {emitter : Emitter} {host runId : String} {count : Nat} {log : Bytes}

theorem Logs.emitAll (h : emitter.Logs host runId count log) (entries : List Entry) :
    (emitter.emitAll entries).2.Logs host runId count (log ++ entries.flatMap recordBytes) := by
  induction entries generalizing emitter log with
  | nil => simpa [Emitter.emitAll] using h
  | cons e entries ih =>
    have hrest := ih (h.emit e)
    rwa [List.append_assoc] at hrest

theorem emit_ok {sink : Sink} (hs : emitter.sink = some sink) (ha : sink.medium.Accepting)
    (hflush : ∀ written calls, sink.medium.flush written calls = none) (e : Entry) :
    emitter.emit e = (.ok (), { emitter with sink := some (sink.writePieces (pieces e)).2 }) := by
  have hok := sink.writePieces_ok (pieces e) ha
  have hmedium := (sink.grown_writePieces (pieces e)).medium
  cases hw : sink.writePieces (pieces e) with
  | mk outcome sink' =>
    rw [hw] at hok hmedium
    dsimp only at hok hmedium
    simp only [emit, hs, hw, hok, Sink.flush, hmedium, hflush]

theorem emitAll_ok {sink : Sink} (hs : emitter.sink = some sink) (ha : sink.medium.Accepting)
    (hflush : ∀ written calls, sink.medium.flush written calls = none) (entries : List Entry) :
    ∀ result ∈ (emitter.emitAll entries).1, result = .ok () := by
  induction entries generalizing emitter sink with
  | nil => exact fun result hr => absurd hr List.not_mem_nil
  | cons e entries ih =>
    have hemit := emit_ok hs ha hflush e
    have hmedium := (sink.grown_writePieces (pieces e)).medium
    have hsink : (emitter.emit e).2.sink = some (sink.writePieces (pieces e)).2 := by
      rw [hemit]
    have hrest := ih hsink (by rwa [hmedium]) (by rwa [hmedium])
    intro result hr
    rcases List.mem_cons.mp hr with hr | hr
    · rw [hr, hemit]
    · exact hrest result hr

/-- Records are written to a sink without limits, and the log is a text with a line for each record.
Each line is valid and holds its record, whatever number it is given. -/
theorem validate_lines_emitAll (host runId : String) (count : Nat) (entries : List Entry) :
    let logged := (Emitter.mk (some (.new .unlimited)) count host runId).emitAll entries
    (∀ result ∈ logged.1, result = .ok ()) ∧
      ∃ text, Utf8.decode? logged.2.written = some text ∧
        (lines text).length = entries.length ∧
        ∀ (i : Nat) (number : UInt64),
          (lines text)[i]?.map (validate · number) = entries[i]?.map .ok := by
  have hlogs : (Emitter.mk (some (.new .unlimited)) count host runId).Logs host runId count [] :=
    ⟨rfl, rfl, rfl, .new .unlimited, rfl, Medium.accepting_unlimited, rfl⟩
  have hwritten := (hlogs.emitAll entries).written
  rw [List.nil_append, ← encode_logText] at hwritten
  refine ⟨emitAll_ok rfl Medium.accepting_unlimited (fun _ _ => rfl) entries,
    logText entries, ?_, ?_, ?_⟩
  · rw [hwritten]
    exact Utf8.decode?_encode _
  · rw [lines_logText, List.length_map]
  · intro i number
    rw [lines_logText, List.getElem?_map, Option.map_map]
    cases entries[i]? with
    | none => simp only [Option.map_none]
    | some e =>
      have hvalid := e.validate_line number
      simp only [Option.map_some, Function.comp_apply, hvalid]

end Emitter
end LoaderBench.Log
