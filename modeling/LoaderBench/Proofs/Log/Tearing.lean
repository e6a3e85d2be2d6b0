import LoaderBench.Proofs.Json.Torn
import LoaderBench.Proofs.Log.Schema
import LoaderBench.Proofs.Text.Ascii

/-!
# Records after a failure

A write that fails may leave a first part of a record behind, without its line break. The next record
that is written then stands on the same line, and that line reads as no record at all. So a record that
was reported as written is read back exactly if the log ended with a line break when its turn came. It
did if the record before was reported as written too.
-/

namespace LoaderBench.Log

open LoaderBench.Json LoaderBench.Platform

variable {log line bytes : Bytes} {e e' : Entry}

/-! ### Lines of a log -/

/-- The lines of a log, without their line breaks, and what comes after the last line break. -/
def cutLines : Bytes → List Bytes × Bytes
  | [] => ([], [])
  | b :: log =>
    match cutLines log with
    | (lines, last) =>
      if b = 10 then ([] :: lines, last)
      else
        match lines with
        | [] => ([], b :: last)
        | line :: lines => ((b :: line) :: lines, last)

def closedLines (log : Bytes) : List Bytes := (cutLines log).1

/-- The line that the next byte goes to. -/
def openLine (log : Bytes) : Bytes := (cutLines log).2

theorem cutLines_append (h : 10 ∉ bytes) (log : Bytes) :
    cutLines (log ++ bytes) = (closedLines log, openLine log ++ bytes) := by
  induction log with
  | nil =>
    simp only [List.nil_append, closedLines, openLine, cutLines]
    induction bytes with
    | nil => rfl
    | cons b bytes ih =>
      have hb : b ≠ 10 := fun hb => h (hb ▸ List.mem_cons_self)
      have hbytes : 10 ∉ bytes := fun hmem => h (List.mem_cons_of_mem _ hmem)
      simp only [cutLines, ih hbytes, hb, if_false]
  | cons b log ih =>
    simp only [List.cons_append, cutLines, ih, closedLines, openLine]
    split
    · rfl
    · split <;> simp_all

theorem cutLines_append_break (log : Bytes) :
    cutLines (log ++ [10]) = (closedLines log ++ [openLine log], []) := by
  induction log with
  | nil => rfl
  | cons b log ih =>
    simp only [List.cons_append, cutLines, ih, closedLines, openLine]
    split
    · rfl
    · cases (cutLines log).1 <;> rfl

/-- Whether a line reads as a record, whatever number it is given. -/
def Reads (line : Bytes) (e : Entry) : Prop :=
  ∃ text, Utf8.decode? line = some text ∧ ∀ number, validate text number = .ok e

/-! ### The line of a record -/

theorem headed_members (e : Entry) : Headed e.members := by
  obtain ⟨ms, hms⟩ : ∃ ms, e.members = ("timestamp", .text e.timestamp) :: ms := ⟨_, rfl⟩
  have htext := compactText_object "timestamp" (.text e.timestamp) ms
  have hkey : "timestamp".toList.flatMap escaped =
      't' :: ['i', 'm', 'e', 's', 't', 'a', 'm', 'p'] := by decide
  rw [← hms, memberText, hkey, List.cons_append] at htext
  exact ⟨e.flat_members, _, htext, stuck_cons (by decide) _⟩

theorem toList_line (e : Entry) : e.line.toList = compactText (.object e.members) :=
  String.toList_ofList

theorem encode_line_cons (e : Entry) : ∃ rest, Utf8.encode e.line = 0x7B :: rest := by
  obtain ⟨s, hs, -⟩ := (headed_members e).key
  have hbrace : String.utf8EncodeChar '\x7b' = [0x7B] := by decide
  refine ⟨('"' :: s).flatMap String.utf8EncodeChar, ?_⟩
  rw [Utf8.encode, toList_line, hs, List.flatMap_cons, hbrace, List.singleton_append]

theorem break_not_mem_encode_line (e : Entry) : 10 ∉ Utf8.encode e.line := by
  intro h
  have hmem := (Utf8.mem_encode_iff (a := '\n') (by decide) (by decide) e.line).mp h
  exact (e.unbroken_line '\n' hmem).1 rfl

/-! ### Remains of records -/

/-- What a failed write can leave: a first part of a record's line, of which something is there. -/
def Remains (p : Bytes) : Prop := p ≠ [] ∧ ∃ e : Entry, p <+: Utf8.encode e.line

/-- Remains of records that failed one after another. -/
def Torn (bytes : Bytes) : Prop := ∃ ps : List Bytes, bytes = ps.flatten ∧ ∀ p ∈ ps, Remains p

theorem torn_nil : Torn [] := ⟨[], rfl, nofun⟩

theorem Torn.append {p : Bytes} (h : Torn bytes) (hp : p <+: Utf8.encode e.line) :
    Torn (bytes ++ p) := by
  obtain ⟨ps, rfl, hps⟩ := h
  by_cases hne : p = []
  · rw [hne, List.append_nil]
    exact ⟨ps, rfl, hps⟩
  · refine ⟨ps ++ [p], by simp, fun q hq => ?_⟩
    rcases List.mem_append.mp hq with hq | hq
    · exact hps q hq
    · rw [List.mem_singleton.mp hq]
      exact ⟨hne, e, hp⟩

theorem flatten_append_cons {ps : List Bytes} (hps : ∀ p ∈ ps, Remains p) (e : Entry) :
    ∃ rest, ps.flatten ++ Utf8.encode e.line = 0x7B :: rest := by
  cases ps with
  | nil =>
    rw [List.flatten_nil, List.nil_append]
    exact encode_line_cons e
  | cons p ps =>
    obtain ⟨hne, e', hprefix⟩ := hps p List.mem_cons_self
    obtain ⟨rest, hline⟩ := encode_line_cons e'
    rw [hline] at hprefix
    cases p with
    | nil => exact absurd rfl hne
    | cons b p =>
      rw [(List.cons_prefix_cons.mp hprefix).1]
      exact ⟨_, rfl⟩

theorem text_of_remains {p : Bytes} (hp : Remains p) {ps : List Bytes} (hps : ∀ p ∈ ps, Remains p)
    {s : String} (h : Utf8.encode s = p ++ (ps.flatten ++ Utf8.encode e.line)) :
    ∃ (t u : String) (ms : Members), s.toList = t.toList ++ u.toList ∧
      Utf8.encode u = ps.flatten ++ Utf8.encode e.line ∧ Headed ms ∧ t.toList ≠ [] ∧
      t.toList <+: compactText (.object ms) := by
  obtain ⟨hne, e', hprefix⟩ := hp
  obtain ⟨rest, hrest⟩ := flatten_append_cons hps e
  rw [hrest] at h
  -- What follows the remains begins with a brace, so that they end between characters.
  obtain ⟨t, u, hs, ht, hu⟩ := Utf8.encode_eq_append (by decide) h
  refine ⟨t, u, e'.members, hs, hu.trans hrest.symm, headed_members e', ?_, ?_⟩
  · intro hnil
    rw [Utf8.encode, hnil] at ht
    exact hne ht.symm
  · rw [← ht] at hprefix
    rw [← toList_line]
    exact Utf8.prefix_of_encode_prefix hprefix

theorem jams_of_remains {ps : List Bytes} (hps : ∀ p ∈ ps, Remains p) {s : String}
    (h : Utf8.encode s = ps.flatten ++ Utf8.encode e.line) : Jams s.toList := by
  induction ps generalizing s with
  | nil =>
    rw [List.flatten_nil, List.nil_append] at h
    rw [Utf8.encode_inj h, toList_line]
    exact (headed_members e).jams
  | cons p ps ih =>
    obtain ⟨hp, hps⟩ := List.forall_mem_cons.mp hps
    rw [List.flatten_cons, List.append_assoc] at h
    obtain ⟨t, u, ms, hs, hu, hms, hne, ht⟩ := text_of_remains hp hps h
    rw [hs]
    exact (ih hps hu).torn hms hne ht

theorem not_reads_of_remains {p : Bytes} (hp : Remains p) {ps : List Bytes}
    (hps : ∀ p ∈ ps, Remains p) (e e' : Entry) :
    ¬ Reads (p ++ (ps.flatten ++ Utf8.encode e.line)) e' := by
  rintro ⟨text, hdecode, hvalid⟩
  have hencode := Utf8.encode_of_decode? hdecode
  obtain ⟨t, u, ms, htext, hu, hms, hne, ht⟩ := text_of_remains hp hps hencode
  have hunread := (jams_of_remains hps hu).parse_torn hms hne ht
  rw [← htext, String.ofList_toList] at hunread
  cases hparse : parse text with
  | ok v => exact hunread v hparse
  | error error =>
    have hrefused := validate_malformed hparse 0
    rw [hvalid 0] at hrefused
    cases hrefused

/-- A line with remains of records before a record reads as that record if there are none, and as no
record if there are. -/
theorem Torn.reads_iff (h : Torn bytes) (e e' : Entry) :
    Reads (bytes ++ Utf8.encode e.line) e' ↔ bytes = [] ∧ e' = e := by
  obtain ⟨ps, rfl, hps⟩ := h
  cases ps with
  | nil =>
    rw [List.flatten_nil, List.nil_append]
    constructor
    · rintro ⟨text, hdecode, hvalid⟩
      have hencode := Utf8.encode_of_decode? hdecode
      have hread := hvalid 0
      rw [Utf8.encode_inj hencode, e.validate_line] at hread
      cases hread
      exact ⟨rfl, rfl⟩
    · rintro ⟨-, rfl⟩
      exact ⟨e'.line, Utf8.decode?_encode _, e'.validate_line⟩
  | cons p ps =>
    obtain ⟨hp, hps⟩ := List.forall_mem_cons.mp hps
    rw [List.flatten_cons, List.append_assoc]
    refine iff_of_false (not_reads_of_remains hp hps e e') ?_
    rintro ⟨hnil, -⟩
    exact hp.1 (List.append_eq_nil_iff.mp hnil).1

/-! ### Emitting -/

/-- What a record does to a log: the line that was open is closed with it, or takes a first part of
it. It is whole if the record was reported as written. -/
inductive Adds (e : Entry) (log : Bytes) (answer : Except IoError Unit) (log' : Bytes) : Prop where
  | whole (hclosed : closedLines log' = closedLines log ++ [openLine log ++ Utf8.encode e.line])
      (hopen : openLine log' = [])
  | part (p : Bytes) (hp : p <+: Utf8.encode e.line) (hanswer : answer ≠ .ok ())
      (hclosed : closedLines log' = closedLines log) (hopen : openLine log' = openLine log ++ p)

theorem adds_of_grown {sink sink' : Sink} {result answer : Except IoError Unit}
    (h : Grown (recordBytes e) sink result sink') (hanswer : answer = .ok () → result = .ok ()) :
    Adds e sink.written answer sink'.written := by
  obtain ⟨taken, rest, htaken, hwritten, hok⟩ := h.part
  rw [hwritten]
  rcases List.eq_nil_or_concat rest with rfl | ⟨rest, b, rfl⟩
  · rw [List.append_nil] at htaken
    have hcut : cutLines (sink.written ++ taken) =
        (closedLines sink.written ++ [openLine sink.written ++ Utf8.encode e.line], []) := by
      rw [htaken, recordBytes, ← List.append_assoc, cutLines_append_break, closedLines, openLine,
        cutLines_append (break_not_mem_encode_line e)]
    exact .whole (congrArg Prod.fst hcut) (congrArg Prod.snd hcut)
  · rw [List.concat_eq_append, recordBytes, ← List.append_assoc] at htaken
    have hp : taken <+: Utf8.encode e.line :=
      ⟨rest, (List.append_inj' htaken rfl).1⟩
    have hcut := cutLines_append (fun h10 => break_not_mem_encode_line e (hp.subset h10))
      sink.written
    have hclosed : closedLines (sink.written ++ taken) = closedLines sink.written := by
      rw [closedLines, hcut]
    refine .part taken hp (fun hsuccess => ?_) hclosed (congrArg Prod.snd hcut)
    exact absurd (hok (hanswer hsuccess)) (by simp)

/-- A log to which records of a list were written: an open line holds remains only, and a closed one
remains and a record of the list. -/
structure Sound (entries : List Entry) (log : Bytes) : Prop where
  torn : Torn (openLine log)
  lines : ∀ line ∈ closedLines log, ∃ remains, Torn remains ∧
    ∃ e ∈ entries, line = remains ++ Utf8.encode e.line

theorem Sound.nil (entries : List Entry) : Sound entries [] := ⟨torn_nil, nofun⟩

namespace Adds

variable {log' : Bytes} {answer : Except IoError Unit} {entries : List Entry}

theorem sound (h : Adds e log answer log') (hlog : Sound entries log) (he : e ∈ entries) :
    Sound entries log' := by
  cases h with
  | whole hclosed hopen =>
    refine ⟨hopen ▸ torn_nil, fun line hline => ?_⟩
    rw [hclosed] at hline
    rcases List.mem_append.mp hline with hline | hline
    · exact hlog.lines line hline
    · exact ⟨openLine log, hlog.torn, e, he, List.mem_singleton.mp hline⟩
  | part p hp hanswer hclosed hopen =>
    refine ⟨hopen ▸ hlog.torn.append hp, fun line hline => ?_⟩
    rw [hclosed] at hline
    exact hlog.lines line hline

theorem closedLines_prefix (h : Adds e log answer log') : closedLines log <+: closedLines log' := by
  cases h with
  | whole hclosed hopen => exact ⟨_, hclosed.symm⟩
  | part p hp hanswer hclosed hopen => exact ⟨[], (List.append_nil _).trans hclosed.symm⟩

theorem of_ok (h : Adds e log answer log') (hok : answer = .ok ()) :
    closedLines log' = closedLines log ++ [openLine log ++ Utf8.encode e.line] ∧
      openLine log' = [] := by
  cases h with
  | whole hclosed hopen => exact ⟨hclosed, hopen⟩
  | part p hp hanswer hclosed hopen => exact absurd hok hanswer

end Adds

namespace Emitter

variable {emitter : Emitter} {sink : Sink}

theorem emit_adds (hs : emitter.sink = some sink) (e : Entry) :
    ∃ sink', (emitter.emit e).2.sink = some sink' ∧
      Adds e emitter.written (emitter.emit e).1 (emitter.emit e).2.written := by
  have hgrown := sink.grown_writePieces (pieces e)
  rw [flatten_pieces] at hgrown
  have hanswer : (emitter.emit e).1 = .ok () → (sink.writePieces (pieces e)).1 = .ok () := by
    intro hok
    simp only [emit, hs] at hok
    cases hw : sink.writePieces (pieces e) with
    | mk result sink' =>
      cases result with
      | ok u => rfl
      | error error =>
        rw [hw] at hok
        cases hok
  have hadds := adds_of_grown hgrown hanswer
  refine ⟨(sink.writePieces (pieces e)).2, ?_, ?_⟩
  · rw [emit_toSink hs]
  · simpa only [emit_toSink hs, written, hs] using hadds

theorem emitAll_append (emitter : Emitter) (a b : List Entry) :
    emitter.emitAll (a ++ b) =
      ((emitter.emitAll a).1 ++ ((emitter.emitAll a).2.emitAll b).1,
        ((emitter.emitAll a).2.emitAll b).2) := by
  induction a generalizing emitter with
  | nil => rfl
  | cons e a ih => simp only [List.cons_append, emitAll, ih]

theorem length_emitAll (emitter : Emitter) (entries : List Entry) :
    (emitter.emitAll entries).1.length = entries.length := by
  induction entries generalizing emitter with
  | nil => rfl
  | cons e entries ih => simp only [emitAll, List.length_cons, ih]

/-- What a run of records keeps: the log stays one to which records of the list were written, and its
closed lines stay what they are. -/
theorem sound_emitAll {all : List Entry} (hs : emitter.sink = some sink)
    (hlog : Sound all emitter.written) (entries : List Entry) (hall : ∀ e ∈ entries, e ∈ all) :
    (∃ sink', (emitter.emitAll entries).2.sink = some sink') ∧
      Sound all (emitter.emitAll entries).2.written ∧
      closedLines emitter.written <+: closedLines (emitter.emitAll entries).2.written := by
  induction entries generalizing emitter sink with
  | nil => exact ⟨⟨sink, hs⟩, hlog, List.prefix_rfl⟩
  | cons e entries ih =>
    obtain ⟨he, hrest⟩ := List.forall_mem_cons.mp hall
    obtain ⟨sink', hs', hadds⟩ := emit_adds hs e
    obtain ⟨hsink, hsound, hprefix⟩ := ih hs' (hadds.sound hlog he) hrest
    exact ⟨hsink, hsound, hadds.closedLines_prefix.trans hprefix⟩

theorem openLine_emitAll {all : List Entry} (hs : emitter.sink = some sink)
    (hlog : Sound all emitter.written) (hopen : openLine emitter.written = [])
    (entries : List Entry) (hall : ∀ e ∈ entries, e ∈ all)
    (hlast : ∀ answer ∈ (emitter.emitAll entries).1.getLast?, answer = .ok ()) :
    openLine (emitter.emitAll entries).2.written = [] := by
  rcases List.eq_nil_or_concat entries with rfl | ⟨before, e, rfl⟩
  · exact hopen
  · rw [List.concat_eq_append] at hall hlast ⊢
    have hbefore : ∀ e ∈ before, e ∈ all := fun e he => hall e (List.mem_append_left _ he)
    obtain ⟨⟨sink', hs'⟩, -, -⟩ := sound_emitAll hs hlog before hbefore
    obtain ⟨-, -, hadds⟩ := emit_adds hs' e
    rw [emitAll_append] at hlast ⊢
    have hok : ((emitter.emitAll before).2.emit e).1 = .ok () :=
      hlast _ (by simp [emitAll])
    exact (hadds.of_ok hok).2

/-- No line of a log reads as a record that was not given, and one that reads as a record holds the
line of that record and nothing else. -/
theorem read_line_was_given (medium : Medium) (count : Nat) (host runId : String)
    (entries : List Entry) :
    let log := ((Emitter.mk (some (.new medium)) count host runId).emitAll entries).2.written
    ∀ line ∈ closedLines log, ∀ e, Reads line e → e ∈ entries ∧ line = Utf8.encode e.line := by
  intro log line hline e hreads
  have hs : (Emitter.mk (some (.new medium)) count host runId).sink = some (.new medium) := rfl
  obtain ⟨-, hsound, -⟩ := sound_emitAll hs (Sound.nil entries) entries fun _ he => he
  obtain ⟨remains, htorn, e', he', rfl⟩ := hsound.lines line hline
  obtain ⟨rfl, rfl⟩ := (htorn.reads_iff e' e).mp hreads
  exact ⟨he', List.nil_append _⟩

/-- Whatever a medium does, a record that was reported as written closes a line of the log. The line
reads as that record if no remains of earlier records stand on it, and otherwise as no record. There
are none if it was the first record, or if the one before was reported as written too. -/
theorem written_record_recovered_iff (medium : Medium) (count : Nat) (host runId : String)
    (earlier later : List Entry) (e : Entry)
    (hok : ((Emitter.mk (some (.new medium)) count host runId).emitAll
      (earlier ++ e :: later)).1[earlier.length]? = some (.ok ())) :
    let emitter := Emitter.mk (some (.new medium)) count host runId
    let before := emitter.emitAll earlier
    let log := (emitter.emitAll (earlier ++ e :: later)).2.written
    let remains := openLine before.2.written
    (closedLines log)[(closedLines before.2.written).length]? =
        some (remains ++ Utf8.encode e.line) ∧
      (∀ e', Reads (remains ++ Utf8.encode e.line) e' ↔ remains = [] ∧ e' = e) ∧
      ((∀ answer ∈ before.1.getLast?, answer = .ok ()) → remains = []) := by
  intro emitter before log remains
  have hs : emitter.sink = some (.new medium) := rfl
  have hstart : Sound (earlier ++ e :: later) emitter.written := Sound.nil _
  have hearlier : ∀ x ∈ earlier, x ∈ earlier ++ e :: later :=
    fun x hx => List.mem_append_left _ hx
  have hlater : ∀ x ∈ later, x ∈ earlier ++ e :: later :=
    fun x hx => List.mem_append_right _ (List.mem_cons_of_mem _ hx)
  obtain ⟨⟨sink, hsink⟩, hsound, -⟩ := sound_emitAll hs hstart earlier hearlier
  obtain ⟨sink', hsink', hadds⟩ := emit_adds hsink e
  have hanswer : (before.2.emit e).1 = .ok () := by
    rw [emitAll_append, ← length_emitAll emitter earlier, List.getElem?_append_right (Nat.le_refl _),
      Nat.sub_self] at hok
    exact Option.some.inj hok
  obtain ⟨hclosed, hopen⟩ := hadds.of_ok hanswer
  obtain ⟨-, -, hprefix⟩ := sound_emitAll hsink'
    (hadds.sound hsound (List.mem_append_right _ List.mem_cons_self)) later hlater
  refine ⟨?_, hsound.torn.reads_iff e, openLine_emitAll hs hstart rfl earlier hearlier⟩
  have hlog : log = ((before.2.emit e).2.emitAll later).2.written := by
    show (emitter.emitAll (earlier ++ e :: later)).2.written = _
    rw [emitAll_append]
    rfl
  obtain ⟨rest, hrest⟩ := hprefix
  rw [hlog, ← hrest, hclosed, List.append_assoc, List.getElem?_append_right (Nat.le_refl _),
    Nat.sub_self]
  rfl

/-! ### A medium that fails once -/

/-- A medium that fails in the middle of the first record, and never again. -/
def hiccup : Medium where
  answer _ calls offered :=
    if calls = 0 then .took 5
    else if calls = 1 then .failed (.other "gone") (IoError.other_ne_os _ _)
    else .took offered.length
  flush _ _ := none

/-- A record of an event, with only what every record has. -/
def plainRecord (event : String) : Entry :=
  ⟨"t", "x", .info, event, none, none, none, none, none, none, none, none⟩

/-- What is left by a first record that fails and others that do not. -/
def afterHiccup (events : List String) : List (Except IoError Unit) × Emitter :=
  (Emitter.mk (some (.new hiccup)) 0 "host" "run").emitAll (events.map plainRecord)

theorem third_record_recovered :
    (afterHiccup ["a", "b", "c"]).1[2]? = some (.ok ()) ∧
      (closedLines (afterHiccup ["a", "b", "c"]).2.written)[1]? =
        some (Utf8.encode (plainRecord "c").line) ∧
      Reads (Utf8.encode (plainRecord "c").line) (plainRecord "c") := by
  have hok : (afterHiccup ["a", "b", "c"]).1[2]? = some (.ok ()) :=
    some_ok_of_toOption (by decide +kernel)
  have hlast : (afterHiccup ["a", "b"]).1.getLast? = some (.ok ()) :=
    some_ok_of_toOption (by decide +kernel)
  have hlength : (closedLines (afterHiccup ["a", "b"]).2.written).length = 1 := by decide +kernel
  obtain ⟨hline, hreads, hremains⟩ := written_record_recovered_iff hiccup 0 "host" "run"
    [plainRecord "a", plainRecord "b"] [] (plainRecord "c") hok
  have hnone := hremains fun answer hanswer => Option.some.inj (hanswer.symm.trans hlast)
  rw [hnone, List.nil_append] at hline hreads
  refine ⟨hok, ?_, (hreads _).mpr ⟨rfl, rfl⟩⟩
  rw [← hlength]
  exact hline

/-- The second record is reported as written, and no line of the log reads as a record. -/
theorem second_record_lost :
    (afterHiccup ["a", "b"]).1[1]? = some (.ok ()) ∧
      ∀ line ∈ closedLines (afterHiccup ["a", "b"]).2.written, ∀ e, ¬ Reads line e := by
  have hclosed : closedLines (afterHiccup ["a", "b"]).2.written =
      [(Utf8.encode (plainRecord "a").line).take 5 ++ Utf8.encode (plainRecord "b").line] := by
    decide +kernel
  have hsome : (Utf8.encode (plainRecord "a").line).take 5 ≠ [] := by decide +kernel
  have hnone : ∀ p ∈ ([] : List Bytes), Remains p := nofun
  refine ⟨some_ok_of_toOption (by decide +kernel), fun line hline e => ?_⟩
  rw [hclosed] at hline
  rw [List.mem_singleton.mp hline]
  exact not_reads_of_remains ⟨hsome, plainRecord "a", List.take_prefix 5 _⟩ hnone
    (plainRecord "b") e

end Emitter

end LoaderBench.Log
