import LoaderBench.Proofs.Log.Schema

/-!
# Accepted lines are written again

The record of an accepted line has a written form of its own, and an object with the same fields: what
counts under a key in the line counts there too, and a field that is null or absent is left out. One
field can differ. A level may come as an object with the name as its one key, and it is always written
as the name alone.
-/

namespace LoaderBench.Log

open LoaderBench.Json

variable {α : Type} {ms ws : Members} {key : String} {v : Value} {e : Entry}

/-! ### What is kept under a key -/

/-- The keys of a record's fields. -/
def fieldKeys : List String :=
  ["timestamp", "trace_id", "level", "event", "host", "mode", "target", "symbol", "fixture_id",
    "os_code", "exit_code", "detail"]

/-- One object keeps what another says under a key: its value, unless that is null, and nothing where
there is no value or null. -/
structure Keeps (ms ws : Members) (key : String) : Prop where
  value : ∀ v, v ≠ .null → Holds ms key v → Holds ws key v
  absence : Lacks ms key ∨ Holds ms key .null → Lacks ws key

theorem Keeps.of_holds (h : Holds ms key v) (hw : Holds ws key v) (hv : v ≠ .null) :
    Keeps ms ws key := by
  constructor
  · intro w _ hheld
    rw [hheld.unique h]
    exact hw
  · rintro (hlacks | hnull)
    · have hnone := lookup_eq_none_iff.mpr hlacks
      rw [lookup_of_holds h] at hnone
      cases hnone
    · exact absurd (h.unique hnull) hv

theorem Keeps.of_nothing (h : Lacks ms key ∨ Holds ms key .null) (hw : Lacks ws key) :
    Keeps ms ws key := by
  refine ⟨fun w hnotnull hheld => ?_, fun _ => hw⟩
  rcases h with hlacks | hnull
  · have hnone := lookup_eq_none_iff.mpr hlacks
    rw [lookup_of_holds hheld] at hnone
    cases hnone
  · exact absurd (hheld.unique hnull) hnotnull

/-- A field that may be left out is kept by an object that writes no null. -/
theorem Exact.keeps {write : α → Value} {read : Value → Except Mismatch α} (h : Exact write read)
    (hnull : ¬ Holds ws key .null) {o : Option α} (hm : Allows write ms key o)
    (hw : Allows write ws key o) : Keeps ms ws key := by
  cases o with
  | none => exact .of_nothing hm (hw.resolve_right hnull)
  | some a => exact .of_holds hm hw (h.ne_null a)

/-! ### The written form -/

theorem mem_optional {m : String × Value} {field : String} {o : Option Value} :
    m ∈ Entry.optional field o ↔ ∃ w, o = some w ∧ m = (field, w) := by
  cases o with
  | none => simp [Entry.optional]
  | some w => simp [Entry.optional]

theorem members_holds_no_null (e : Entry) (key : String) : ¬ Holds e.members key .null := by
  rintro ⟨before, after, hsplit, -⟩
  have hmem : (key, Value.null) ∈ e.members := by
    rw [hsplit]
    exact List.mem_append_right _ List.mem_cons_self
  simp [Entry.members, mem_optional] at hmem

theorem conforms_members (e : Entry) : Conforms e.members e :=
  entryOf_eq_ok_iff.mp e.entryOf_members

theorem members_holds_level (e : Entry) : Holds e.members "level" (.text e.level.name) := by
  refine lookup_eq_some_iff.mp ?_
  simp [Entry.lookup_members, lookup]

/-! ### Accepted lines -/

theorem conforms_of_validate {line : String} {number : UInt64} (h : validate line number = .ok e) :
    ∃ ms, parse line = .ok (.object ms) ∧ Conforms ms e := by
  cases hparse : parse line with
  | error error =>
    rw [validate_malformed hparse] at h
    cases h
  | ok v =>
    by_cases hobject : ∃ ms, v = .object ms
    · obtain ⟨ms, rfl⟩ := hobject
      refine ⟨ms, rfl, ?_⟩
      by_cases homits : omissions ms = []
      · rw [validate_object hparse homits] at h
        cases hentry : entryOf ms with
        | error m =>
          rw [hentry] at h
          cases h
        | ok read =>
          rw [hentry] at h
          cases h
          exact entryOf_eq_ok_iff.mp hentry
      · rw [validate_omitting hparse homits] at h
        cases h
    · rw [validate_notObject hparse fun ms hms => hobject ⟨ms, hms⟩] at h
      cases h

theorem Conforms.keeps (h : Conforms ms e) (hkey : key ∈ fieldKeys) (hlevel : key ≠ "level") :
    Keeps ms e.members key := by
  have hw := conforms_members e
  have hnull := members_holds_no_null e
  simp only [fieldKeys, List.mem_cons, List.not_mem_nil, or_false] at hkey
  rcases hkey with rfl | rfl | rfl | rfl | rfl | rfl | rfl | rfl | rfl | rfl | rfl | rfl
  · exact .of_holds h.timestamp hw.timestamp nofun
  · exact .of_holds h.traceId hw.traceId nofun
  · exact absurd rfl hlevel
  · exact .of_holds h.event hw.event nofun
  · exact exact_text.keeps (hnull _) h.host hw.host
  · exact exact_text.keeps (hnull _) h.mode hw.mode
  · exact exact_text.keeps (hnull _) h.target hw.target
  · exact exact_text.keeps (hnull _) h.symbol hw.symbol
  · exact exact_int32.keeps (hnull _) h.fixtureId hw.fixtureId
  · exact exact_int32.keeps (hnull _) h.osCode hw.osCode
  · exact exact_int32.keeps (hnull _) h.exitCode hw.exitCode
  · exact exact_text.keeps (hnull _) h.detail hw.detail

theorem Conforms.keeps_level_iff (h : Conforms ms e) :
    Keeps ms e.members "level" ↔ ∃ name : String, Holds ms "level" (.text name) := by
  obtain ⟨v, hheld, hnames⟩ := h.level
  constructor
  · intro hkeeps
    have hnotnull : v ≠ .null := by
      rintro rfl
      exact hnames
    have hkept := hkeeps.value v hnotnull hheld
    rw [hkept.unique (members_holds_level e)] at hheld
    exact ⟨_, hheld⟩
  · rintro ⟨name, htext⟩
    rw [hheld.unique htext] at hnames
    have hname : name = e.level.name := hnames
    rw [hname] at htext
    exact .of_holds htext (members_holds_level e) nofun

/-- A line that is accepted and the written form of its record agree under every key of a field, but for
the level, which they agree on exactly where the line has a text for it. -/
theorem rewritten_line_keeps_fields (line : String) (number : UInt64) (e : Entry)
    (h : validate line number = .ok e) :
    ∃ ms ws : Members, parse line = .ok (.object ms) ∧ parse e.line = .ok (.object ws) ∧
      (∀ key ∈ fieldKeys, key ≠ "level" → Keeps ms ws key) ∧
      (Keeps ms ws "level" ↔ ∃ name : String, Holds ms "level" (.text name)) ∧
      (∃ v, Holds ms "level" v ∧ Names e.level v) ∧ Holds ws "level" (.text e.level.name) ∧
      e.level.name ∈ ["info", "warn", "error"] := by
  obtain ⟨ms, hparse, hconforms⟩ := conforms_of_validate h
  have hname : e.level.name ∈ ["info", "warn", "error"] := by
    cases e.level <;> decide
  exact ⟨ms, e.members, hparse, parse_compact e.flat_members,
    fun key hkey hlevel => hconforms.keeps hkey hlevel, hconforms.keeps_level_iff, hconforms.level,
    members_holds_level e, hname⟩

/-! ### A level in the form of an object -/

/-- A line with a level in the form of an object, a field that is null and one that comes twice. -/
def objectLevelLine : String :=
  "\x7b\"timestamp\":\"t\",\"trace_id\":\"x\",\"level\":\x7b\"info\":null\x7d,\"event\":\"d\"," ++
    "\"event\":\"e\",\"host\":null\x7d"

/-- The record of that line. -/
def objectLevelEntry : Entry :=
  ⟨"t", "x", .info, "e", none, none, none, none, none, none, none, none⟩

/-- The shape of what an object has under the key of the level. -/
def levelShape : Value → Option Shape
  | .object ms => (lookup "level" ms).map Value.shape
  | _ => none

theorem validate_objectLevelLine : validate objectLevelLine 1 = .ok objectLevelEntry :=
  ok_of_toOption (by decide +kernel)

theorem object_level_line_keeps_fields :
    validate objectLevelLine 1 = .ok objectLevelEntry ∧
      ∃ ms ws : Members, parse objectLevelLine = .ok (.object ms) ∧
        parse objectLevelEntry.line = .ok (.object ws) ∧
        (∀ key ∈ fieldKeys, key ≠ "level" → Keeps ms ws key) ∧
        (Keeps ms ws "level" ↔ ∃ name : String, Holds ms "level" (.text name)) ∧
        (∃ v, Holds ms "level" v ∧ Names .info v) ∧ Holds ws "level" (.text "info") ∧
        "info" ∈ ["info", "warn", "error"] :=
  ⟨validate_objectLevelLine,
    rewritten_line_keeps_fields objectLevelLine 1 objectLevelEntry validate_objectLevelLine⟩

/-- The line is accepted though its level is no text, and what it says of the level is not kept. -/
theorem object_level_is_not_kept :
    validate objectLevelLine 1 = .ok objectLevelEntry ∧
      ∃ ms ws : Members, parse objectLevelLine = .ok (.object ms) ∧
        parse objectLevelEntry.line = .ok (.object ws) ∧
        (∀ name : String, ¬ Holds ms "level" (.text name)) ∧ ¬ Keeps ms ws "level" := by
  obtain ⟨ms, hparse, hconforms⟩ := conforms_of_validate validate_objectLevelLine
  have hlevel : (parse objectLevelLine).toOption.bind levelShape = some .map := by decide +kernel
  rw [hparse] at hlevel
  have hnotext (name : String) : ¬ Holds ms "level" (.text name) := by
    intro htext
    have hshape : (lookup "level" ms).map Value.shape = some .map := hlevel
    rw [lookup_of_holds htext] at hshape
    cases hshape
  refine ⟨validate_objectLevelLine, ms, objectLevelEntry.members, hparse,
    parse_compact objectLevelEntry.flat_members, hnotext, fun hkeeps => ?_⟩
  obtain ⟨name, htext⟩ := hconforms.keeps_level_iff.mp hkeeps
  exact hnotext name htext

end LoaderBench.Log
