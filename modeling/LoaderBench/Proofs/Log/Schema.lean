import LoaderBench.Log.Validation
import LoaderBench.Proofs.Json.Lexeme
import LoaderBench.Proofs.Json.Members
import LoaderBench.Proofs.Log.Reading

/-!
# The schema of log lines

What a valid line is, told by its members and not by the order in which they are looked at
(`Conforms`), and what is missing in an object (`Omits`). Checking a line decides between them: it
answers the record that the line conforms to, and a line that conforms to none is refused with all
that it omits or, if it omits nothing, with a single violation.
-/

namespace LoaderBench.Log

open LoaderBench.Json LoaderBench.Text

variable {α : Type} {ms : Members} {field : String} {v : Value}

/-! ### Values -/

/-- A reader that reads what was written, and nothing else. -/
structure Exact (write : α → Value) (read : Value → Except Mismatch α) : Prop
    extends Carries write read where
  only : ∀ {v a}, read v = .ok a → v = write a

theorem exact_text : Exact Value.text textOf := by
  refine ⟨carries_text, fun {v s} h => ?_⟩
  unfold textOf at h
  split at h
  · cases h
    rfl
  · cases h

theorem exact_int32 : Exact (fun i : Int32 => Value.integer i.toInt) int32Of := by
  refine ⟨carries_int32, fun {v i} h => ?_⟩
  unfold int32Of at h
  split at h
  · rename_i n
    obtain ⟨j, hj, rfl⟩ := map_eq_ok_iff.mp h
    cases n with
    | integer k =>
      simp only [wholeBetween] at hj
      split at hj
      · rename_i hrange
        cases hj
        rw [Int32.toInt_ofInt_of_le hrange.1 (Int.lt_of_le_sub_one hrange.2)]
      · cases hj
    | real x => cases hj
  · cases h

/-- A value that stands for a level: its name, or an object with the name as its one key and null under
it. -/
def Names (level : Level) : Value → Prop
  | .text s => s = level.name
  | .object ms => (∀ m ∈ ms, m.1 = level.name) ∧ Holds ms level.name .null
  | _ => False

theorem lookup_levels_eq_some_iff {name : String} {level : Level} :
    levels.lookup name = some level ↔ name = level.name := by
  constructor
  · intro h
    obtain ⟨before, after, hsplit, -⟩ := List.lookup_eq_some_iff.mp h
    have hmem : (name, level) ∈ levels := by
      rw [hsplit]
      exact List.mem_append_right _ List.mem_cons_self
    have hall : ∀ p ∈ levels, p.1 = p.2.name := by decide
    exact hall _ hmem
  · rintro rfl
    exact lookup_levels level

theorem variantNamed_levels_eq_ok_iff {name : String} {level : Level} :
    variantNamed levels name = .ok level ↔ name = level.name := by
  rw [← lookup_levels_eq_some_iff, variantNamed]
  cases levels.lookup name with
  | none => exact iff_of_false error_ne_ok (Option.some_ne_none level).symm
  | some found => rw [Except.ok.injEq, Option.some.injEq]

theorem nullOf_eq_ok_iff : nullOf v = .ok () ↔ v = .null := by
  constructor
  · intro h
    unfold nullOf at h
    split at h
    · rfl
    · cases h
  · rintro rfl
    rfl

theorem levelOf_object_eq_ok_iff {level : Level} :
    levelOf (.object ms) = .ok level ↔ Names level (.object ms) := by
  rw [Names, levelOf]
  split
  · rename_i key hkeys
    obtain ⟨hne, hall⟩ := keys_eq_singleton_iff.mp hkeys
    obtain ⟨m, hm⟩ := List.exists_mem_of_ne_nil ms hne
    obtain ⟨last, hlast⟩ : ∃ last, lookup key ms = some last :=
      Option.ne_none_iff_exists'.mp fun hnone => lookup_eq_none_iff.mp hnone m hm (hall m hm)
    simp only [bind_eq_ok_iff, variantNamed_levels_eq_ok_iff, hlast, Option.getD_some]
    constructor
    · rintro ⟨found, rfl, ⟨⟩, hnull, hfound⟩
      cases hfound
      rw [nullOf_eq_ok_iff.mp hnull] at hlast
      exact ⟨hall, lookup_eq_some_iff.mp hlast⟩
    · rintro ⟨hnamed, hnull⟩
      obtain rfl : key = level.name := (hall m hm).symm.trans (hnamed m hm)
      rw [(lookup_eq_some_iff.mp hlast).unique hnull]
      exact ⟨level, rfl, (), rfl, rfl⟩
  · rename_i hkeys
    refine iff_of_false error_ne_ok ?_
    rintro ⟨hnamed, hnull⟩
    exact hkeys _ (keys_eq_singleton_iff.mpr ⟨hnull.ne_nil, hnamed⟩)

theorem levelOf_eq_ok_iff {level : Level} : levelOf v = .ok level ↔ Names level v := by
  cases v with
  | scalar a =>
    cases a with
    | text s => exact variantNamed_levels_eq_ok_iff
    | null => exact iff_of_false error_ne_ok id
    | boolean b => exact iff_of_false error_ne_ok id
    | number n => exact iff_of_false error_ne_ok id
  | array vs => exact iff_of_false error_ne_ok id
  | object ms => exact levelOf_object_eq_ok_iff

/-! ### Fields -/

theorem required_eq_ok_iff {read : Value → Except Mismatch α} {a : α} :
    required ms field read = .ok a ↔ ∃ v, Holds ms field v ∧ read v = .ok a := by
  unfold required
  split
  · rename_i hnone
    refine iff_of_false error_ne_ok ?_
    rintro ⟨v, hholds, -⟩
    rw [lookup_of_holds hholds] at hnone
    cases hnone
  · rename_i v hv
    have hholds := lookup_eq_some_iff.mp hv
    refine ⟨fun h => ⟨v, hholds, h⟩, ?_⟩
    rintro ⟨w, hw, h⟩
    rw [hholds.unique hw]
    exact h

/-- What may stand under a key that may be left out: a value, or null or nothing at all. -/
def Allows (write : α → Value) (ms : Members) (field : String) : Option α → Prop
  | some a => Holds ms field (write a)
  | none => Lacks ms field ∨ Holds ms field .null

namespace Exact

variable {write : α → Value} {read : Value → Except Mismatch α}

theorem required_eq_ok_iff (h : Exact write read) {a : α} :
    required ms field read = .ok a ↔ Holds ms field (write a) := by
  rw [Log.required_eq_ok_iff]
  constructor
  · rintro ⟨v, hholds, hread⟩
    rwa [← h.only hread]
  · exact fun hholds => ⟨_, hholds, h.back a⟩

theorem ne_null (h : Exact write read) (a : α) : write a ≠ .null := by
  obtain ⟨s, hs, -, hnull⟩ := h.scalar a
  rw [hs]
  exact fun hsame => hnull (Value.scalar.inj hsame)

theorem allowed_eq_ok_iff (h : Exact write read) {o : Option α} :
    allowed ms field read = .ok o ↔ Allows write ms field o := by
  unfold allowed
  split
  · rename_i hnone
    have hlacks := lookup_eq_none_iff.mp hnone
    cases o with
    | none => exact iff_of_true rfl (.inl hlacks)
    | some a =>
      refine iff_of_false nofun fun hholds => ?_
      rw [lookup_of_holds hholds] at hnone
      cases hnone
  · rename_i hlast
    have hnull := lookup_eq_some_iff.mp hlast
    cases o with
    | none => exact iff_of_true rfl (.inr hnull)
    | some a => exact iff_of_false nofun fun hholds => h.ne_null a (hholds.unique hnull)
  · rename_i v hne hlast
    have hholds := lookup_eq_some_iff.mp hlast
    rw [map_eq_ok_iff]
    constructor
    · rintro ⟨a, hread, rfl⟩
      rwa [h.only hread] at hholds
    · intro hallows
      cases o with
      | none =>
        rcases hallows with hlacks | hnull
        · rw [lookup_eq_none_iff.mpr hlacks] at hlast
          cases hlast
        · exact absurd (hholds.unique hnull) hne
      | some a => exact ⟨a, (hholds.unique hallows) ▸ h.back a, rfl⟩

end Exact

/-! ### Records -/

/-- An object with the fields of a record. -/
structure Conforms (ms : Members) (e : Entry) : Prop where
  timestamp : Holds ms "timestamp" (.text e.timestamp)
  traceId : Holds ms "trace_id" (.text e.traceId)
  level : ∃ v, Holds ms "level" v ∧ Names e.level v
  event : Holds ms "event" (.text e.event)
  host : Allows .text ms "host" e.host
  mode : Allows .text ms "mode" e.mode
  target : Allows .text ms "target" e.target
  symbol : Allows .text ms "symbol" e.symbol
  fixtureId : Allows (fun i => .integer i.toInt) ms "fixture_id" e.fixtureId
  osCode : Allows (fun i => .integer i.toInt) ms "os_code" e.osCode
  exitCode : Allows (fun i => .integer i.toInt) ms "exit_code" e.exitCode
  detail : Allows .text ms "detail" e.detail

theorem entryOf_eq_ok_iff {e : Entry} : entryOf ms = .ok e ↔ Conforms ms e := by
  simp only [entryOf, bind_eq_ok_iff, exact_text.allowed_eq_ok_iff,
    exact_int32.allowed_eq_ok_iff, exact_text.required_eq_ok_iff, required_eq_ok_iff,
    levelOf_eq_ok_iff]
  constructor
  · rintro ⟨detail, hdetail, event, hevent, exitCode, hexit, fixtureId, hfixture, host, hhost, level,
      hlevel, mode, hmode, osCode, hcode, symbol, hsymbol, target, htarget, timestamp, htimestamp,
      traceId, htrace, he⟩
    cases he
    exact ⟨htimestamp, htrace, hlevel, hevent, hhost, hmode, htarget, hsymbol, hfixture, hcode, hexit,
      hdetail⟩
  · intro h
    exact ⟨_, h.detail, _, h.event, _, h.exitCode, _, h.fixtureId, _, h.host, _, h.level, _, h.mode, _,
      h.osCode, _, h.symbol, _, h.target, _, h.timestamp, _, h.traceId, rfl⟩

/-! ### Omissions -/

/-- An object with a level that is a text, but not the name of one. -/
def UnknownLevel (ms : Members) (name : String) : Prop :=
  Holds ms "level" (.text name) ∧ ∀ level : Level, name ≠ level.name

/-- All that is missing in an object: fields, and after these a level that is known. -/
def Omits (ms : Members) (flaws : List Flaw) : Prop :=
  ∃ unknown, flaws = (["timestamp", "trace_id", "level", "event"].filter (Lacks ms ·)).map .missing ++
      unknown ∧
    ((∃ name, UnknownLevel ms name ∧ unknown = [.unknownLevel name]) ∨
      ((∀ name, ¬ UnknownLevel ms name) ∧ unknown = []))

theorem omits_omissions (ms : Members) : Omits ms (omissions ms) := by
  have hmissing : (requiredFields.filter fun field => (lookup field ms).isNone) =
      ["timestamp", "trace_id", "level", "event"].filter (Lacks ms ·) := by
    refine List.filter_congr fun field _ => ?_
    rw [Bool.eq_iff_iff, Option.isNone_iff_eq_none, lookup_eq_none_iff, decide_eq_true_iff]
  refine ⟨_, congrArg (List.map Flaw.missing · ++ _) hmissing, ?_⟩
  have hknown {name : String} : levels.lookup name = none ↔ ∀ level : Level, name ≠ level.name := by
    rw [Option.eq_none_iff_forall_ne_some]
    exact forall_congr' fun level => not_congr lookup_levels_eq_some_iff
  split
  · rename_i name hname
    have hholds := lookup_eq_some_iff.mp hname
    split
    · rename_i hnone
      exact .inl ⟨name, ⟨hholds, hknown.mp (Option.isNone_iff_eq_none.mp hnone)⟩, rfl⟩
    · rename_i hsome
      refine .inr ⟨?_, rfl⟩
      rintro other ⟨hother, hunknown⟩
      cases hholds.unique hother
      exact hsome (Option.isNone_iff_eq_none.mpr (hknown.mpr hunknown))
  · rename_i hother
    refine .inr ⟨?_, rfl⟩
    rintro name ⟨hholds, -⟩
    exact hother name (lookup_of_holds hholds)

/-! ### Lines -/

/-- A result that is a single violation, with its field. -/
def Refuses (number : UInt64) (flaw : Flaw) (field : String)
    (result : Except (List Violation) Entry) : Prop :=
  result = .error [⟨number, flaw⟩] ∧ flaw.field = field

theorem validate_malformed {line : String} {e : Json.Error} (hparse : parse line = .error e)
    (number : UInt64) : validate line number = .error [⟨number, .malformed e⟩] := by
  rw [validate, check, hparse]
  rfl

theorem validate_notObject {line : String} (hparse : parse line = .ok v)
    (hobject : ∀ ms, v ≠ .object ms) (number : UInt64) :
    validate line number = .error [⟨number, .notObject⟩] := by
  rw [validate, check, hparse]
  cases v with
  | scalar a => rfl
  | array vs => rfl
  | object ms => exact absurd rfl (hobject ms)

theorem validate_omitting {line : String} (hparse : parse line = .ok (.object ms))
    (homits : omissions ms ≠ []) (number : UInt64) :
    validate line number = .error ((omissions ms).map (⟨number, ·⟩)) := by
  simp only [validate, check, hparse]
  rfl

theorem validate_object {line : String} (hparse : parse line = .ok (.object ms))
    (homits : omissions ms = []) (number : UInt64) :
    validate line number = (entryOf ms).mapError fun m => [⟨number, .mismatch m⟩] := by
  simp only [validate, check, hparse, homits]
  cases entryOf ms <;> rfl

/-- Checking a line decides whether it is malformed, or no object, or omits something, or conforms to a
record, or is none of these. Whole numbers are those that are written in digits alone. -/
theorem validate_decides (line : String) (number : UInt64) :
    (match parse line with
    | .error e => Refuses number (.malformed e) "<json>" (validate line number)
    | .ok (.object ms) => ∃ flaws, Omits ms flaws ∧
      (flaws ≠ [] → validate line number = .error (flaws.map (⟨number, ·⟩))) ∧
      (flaws = [] → (∀ e, validate line number = .ok e ↔ Conforms ms e) ∧
        ((∀ e, ¬ Conforms ms e) →
          ∃ m, Refuses number (.mismatch m) "<schema>" (validate line number)))
    | .ok _ => Refuses number .notObject "<root>" (validate line number)) ∧
    ∀ (s rest : Input) (i : Int), scalar s = .ok (.number (.integer i), rest) ↔
      s = (signed i).toList ++ rest ∧ EndsNumber rest ∧
        -0x8000000000000000 ≤ i ∧ i < 0x10000000000000000 := by
  refine ⟨?_, fun s rest i => scalar_integer_iff⟩
  split
  · rename_i e hparse
    exact ⟨validate_malformed hparse number, rfl⟩
  · rename_i ms hparse
    refine ⟨omissions ms, omits_omissions ms, fun homits => validate_omitting hparse homits number,
      fun homits => ?_⟩
    rw [validate_object hparse homits]
    cases hentry : entryOf ms with
    | ok e =>
      refine ⟨fun e' => ?_, fun hnone => absurd (entryOf_eq_ok_iff.mp hentry) (hnone e)⟩
      rw [← entryOf_eq_ok_iff, hentry, Except.ok.injEq]
      exact ⟨Except.ok.inj, congrArg Except.ok⟩
    | error m =>
      refine ⟨fun e => iff_of_false error_ne_ok fun hconforms => ?_, fun _ => ⟨m, rfl, rfl⟩⟩
      rw [entryOf_eq_ok_iff.mpr hconforms] at hentry
      cases hentry
  · rename_i v hobject hparse
    exact ⟨validate_notObject hparse hobject number, rfl⟩

end LoaderBench.Log
