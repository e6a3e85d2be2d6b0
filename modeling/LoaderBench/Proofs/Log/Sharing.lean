import LoaderBench.Proofs.Log.Tearing
import Mathlib.Data.List.Chain

/-!
# Two emitters on one file

An emitter makes two write calls for a record, one for its line and one for its line break
(`Emitter.emitAll_run`). Where two emitters append to one file, the other one may come in between. The
lines of two records are then on one line of the file, which reads as no record, and a later line is
empty. Each record of both is on a line of its own exactly if of any two calls in a row one writes a line
break.
-/

namespace LoaderBench.Log

open LoaderBench.Platform

variable {α β : Type} {xs ys zs : List α} {a b : List Entry} {e : Entry}

/-! ### Merges -/

/-- Whether a list is made of two others, each in its order. -/
inductive Merge {α : Type} : List α → List α → List α → Prop where
  | none : Merge [] [] []
  | left {x : α} {xs ys zs : List α} : Merge xs ys zs → Merge (x :: xs) ys (x :: zs)
  | right {y : α} {xs ys zs : List α} : Merge xs ys zs → Merge xs (y :: ys) (y :: zs)

namespace Merge

theorem inr (ys : List α) : Merge [] ys ys := by
  induction ys with
  | nil => exact .none
  | cons y ys ih => exact ih.right

theorem append (xs ys : List α) : Merge xs ys (xs ++ ys) := by
  induction xs with
  | nil => exact inr ys
  | cons x xs ih => exact ih.left

theorem of_map {f : α → β} {us : List β} (h : Merge (xs.map f) (ys.map f) us) :
    ∃ zs, Merge xs ys zs ∧ zs.map f = us := by
  generalize hxs : xs.map f = fxs at h
  generalize hys : ys.map f = fys at h
  induction h generalizing xs ys with
  | none =>
    rw [List.map_eq_nil_iff.mp hxs, List.map_eq_nil_iff.mp hys]
    exact ⟨[], .none, rfl⟩
  | left _ ih =>
    obtain ⟨x, xs, rfl, rfl, hrest⟩ := List.map_eq_cons_iff.mp hxs
    obtain ⟨zs, hzs, rfl⟩ := ih hrest hys
    exact ⟨x :: zs, hzs.left, rfl⟩
  | right _ ih =>
    obtain ⟨y, ys, rfl, rfl, hrest⟩ := List.map_eq_cons_iff.mp hys
    obtain ⟨zs, hzs, rfl⟩ := ih hxs hrest
    exact ⟨y :: zs, hzs.right, rfl⟩

theorem filterMap (f : α → Option β) (h : Merge xs ys zs) :
    Merge (xs.filterMap f) (ys.filterMap f) (zs.filterMap f) := by
  induction h with
  | none => exact .none
  | @left x _ _ _ _ ih =>
    simp only [List.filterMap_cons]
    cases f x with
    | none => exact ih
    | some b => exact ih.left
  | @right y _ _ _ _ ih =>
    simp only [List.filterMap_cons]
    cases f y with
    | none => exact ih
    | some b => exact ih.right

theorem countP (p : α → Bool) (h : Merge xs ys zs) : zs.countP p = xs.countP p + ys.countP p := by
  induction h with
  | none => rfl
  | left _ ih =>
    rw [List.countP_cons, List.countP_cons, ih]
    omega
  | right _ ih =>
    rw [List.countP_cons, List.countP_cons, ih]
    omega

theorem length (h : Merge xs ys zs) : zs.length = xs.length + ys.length := by
  have hcount := h.countP fun _ => true
  simpa only [List.countP_true] using hcount

theorem symm (h : Merge xs ys zs) : Merge ys xs zs := by
  induction h with
  | none => exact .none
  | left _ ih => exact ih.right
  | right _ ih => exact ih.left

theorem getLast?_left (h : Merge xs ys zs) (x : α)
    (hlast : zs.getLast? = xs.getLast? ∨ zs.getLast? = ys.getLast?) :
    (x :: zs).getLast? = (x :: xs).getLast? ∨ (x :: zs).getLast? = ys.getLast? := by
  rcases hlast with hxs | hys
  · exact .inl (by rw [List.getLast?_cons, List.getLast?_cons, hxs])
  · cases hlast : ys.getLast? with
    | none =>
      have hzs := List.getLast?_eq_none_iff.mp (hys.trans hlast)
      have hlength := h.length
      rw [hzs] at hlength
      have hxs := List.eq_nil_of_length_eq_zero (Nat.add_eq_zero_iff.mp hlength.symm).1
      exact .inl (by rw [hzs, hxs])
    | some y => exact .inr (by rw [List.getLast?_cons, hys, hlast, Option.getD_some])

/-- What comes last in a merge comes last in one of its parts. -/
theorem getLast? (h : Merge xs ys zs) :
    zs.getLast? = xs.getLast? ∨ zs.getLast? = ys.getLast? := by
  induction h with
  | none => exact .inl rfl
  | left h ih => exact h.getLast?_left _ ih
  | right h ih => exact (h.symm.getLast?_left _ ih.symm).symm

end Merge

/-! ### Write calls -/

/-- Two emitters that append to one file: the calls that each has still to make, and the file. -/
structure Shared where
  first : List Bytes
  second : List Bytes
  file : Sink

/-- A write call of one of them. It takes all that it is offered. -/
inductive Shared.Step : Shared → Bytes → Shared → Prop where
  | first {call : Bytes} {first second : List Bytes} {file file' : Sink} :
      file.write call = (.ok call.length, file') →
      Step ⟨call :: first, second, file⟩ call ⟨first, second, file'⟩
  | second {call : Bytes} {first second : List Bytes} {file file' : Sink} :
      file.write call = (.ok call.length, file') →
      Step ⟨first, call :: second, file⟩ call ⟨first, second, file'⟩

/-- Calls that are made one after another, in any turns. -/
inductive Shared.Run : Shared → List Bytes → Shared → Prop where
  | none {shared : Shared} : Run shared [] shared
  | next {shared mid last : Shared} {call : Bytes} {calls : List Bytes} :
      Step shared call mid → Run mid calls last → Run shared (call :: calls) last

variable {file file' : Sink} {call : Bytes} {calls first second : List Bytes} {shared last : Shared}

theorem Sink.write_whole (h : file.write call = (.ok call.length, file')) :
    file'.written = file.written ++ call := by
  unfold Sink.write at h
  split at h
  · rename_i count _
    obtain ⟨hcount, rfl⟩ := Prod.mk.inj h
    rw [Except.ok.inj hcount, List.take_length]
  · cases h

namespace Shared

theorem Step.written (h : Step shared call last) : last.file.written = shared.file.written ++ call := by
  cases h with
  | first hwrite => exact Sink.write_whole hwrite
  | second hwrite => exact Sink.write_whole hwrite

/-- A run whose calls are all made appends them in an order that is a merge. -/
theorem Run.merge (h : Run shared calls last) (hfirst : last.first = []) (hsecond : last.second = []) :
    Merge shared.first shared.second calls ∧
      last.file.written = shared.file.written ++ calls.flatten := by
  induction h with
  | none =>
    rw [hfirst, hsecond]
    exact ⟨.none, (List.append_nil _).symm⟩
  | next hstep _ ih =>
    obtain ⟨hmerge, hwritten⟩ := ih hfirst hsecond
    rw [hwritten, hstep.written, List.append_assoc, List.flatten_cons]
    refine ⟨?_, rfl⟩
    cases hstep with
    | first => exact hmerge.left
    | second => exact hmerge.right

theorem Run.trans {mid : Shared} {more : List Bytes} (h : Run shared calls mid)
    (h' : Run mid more last) : Run shared (calls ++ more) last := by
  induction h with
  | none => exact h'
  | next hstep _ ih => exact .next hstep (ih h')

end Shared

/-! ### The calls of an emitter -/

/-- Whether a medium takes all that it is offered. -/
def Medium.TakesAll (medium : Medium) : Prop :=
  ∀ written calls offered, medium.answer written calls offered = .took offered.length

theorem Medium.takesAll_unlimited : Medium.unlimited.TakesAll := by
  intro written calls offered
  cases offered with
  | nil => rfl
  | cons b bytes => simp [unlimited, bounded]

namespace Sink

/-- A sink after a call that took all. -/
def grown (sink : Sink) (bytes : Bytes) : Sink :=
  { sink with written := sink.written ++ bytes, calls := sink.calls + 1 }

theorem write_takesAll (h : file.medium.TakesAll) (bytes : Bytes) :
    file.write bytes = (.ok bytes.length, file.grown bytes) := by
  rw [write_took (h _ _ _), Nat.min_self, List.take_length, grown]

theorem writeAll_takesAll (h : file.medium.TakesAll) {bytes : Bytes} (hne : bytes ≠ []) :
    file.writeAll bytes = (.ok (), file.grown bytes) := by
  cases bytes with
  | nil => exact absurd rfl hne
  | cons b bytes =>
    rw [writeAll, List.length_cons, offer_succ, h]
    simp [offer, grown]

/-- Each piece is written with one call. -/
theorem writePieces_run (h : file.medium.TakesAll) {pieces : List Bytes} (hne : ∀ p ∈ pieces, p ≠ [])
    (first second : List Bytes) :
    (file.writePieces pieces).1 = .ok () ∧ (file.writePieces pieces).2.medium = file.medium ∧
      Shared.Run ⟨pieces ++ first, second, file⟩ pieces
        ⟨first, second, (file.writePieces pieces).2⟩ := by
  induction pieces generalizing file with
  | nil => exact ⟨rfl, rfl, .none⟩
  | cons piece pieces ih =>
    obtain ⟨hpiece, hrest⟩ := List.forall_mem_cons.mp hne
    simp only [writePieces, writeAll_takesAll h hpiece]
    have hmid : (file.grown piece).medium.TakesAll := h
    obtain ⟨hok, hmedium, hrun⟩ := ih hmid hrest
    exact ⟨hok, hmedium, .next (.first (write_takesAll h piece)) hrun⟩

end Sink

/-- Every merge of the calls is the order of a run. -/
theorem Shared.Run.of_merge (h : file.medium.TakesAll) (hmerge : Merge first second calls) :
    ∃ file', Run ⟨first, second, file⟩ calls ⟨[], [], file'⟩ := by
  induction hmerge generalizing file with
  | none => exact ⟨file, .none⟩
  | @left call _ _ _ _ ih =>
    have hmid : (file.grown call).medium.TakesAll := h
    obtain ⟨file', hrun⟩ := ih hmid
    exact ⟨file', .next (.first (Sink.write_takesAll h call)) hrun⟩
  | @right call _ _ _ _ ih =>
    have hmid : (file.grown call).medium.TakesAll := h
    obtain ⟨file', hrun⟩ := ih hmid
    exact ⟨file', .next (.second (Sink.write_takesAll h call)) hrun⟩

theorem pieces_ne_nil (e : Entry) : ∀ p ∈ pieces e, p ≠ [] := by
  obtain ⟨rest, hline⟩ := encode_line_cons e
  simp [pieces, hline]

/-- An emitter makes two calls for each record, one for its line and one for its line break. -/
theorem Emitter.emitAll_run {emitter : Emitter} (hs : emitter.sink = some file)
    (h : file.medium.TakesAll) (entries : List Entry) (second : List Bytes) :
    ∃ file', (emitter.emitAll entries).2.sink = some file' ∧
      Shared.Run ⟨entries.flatMap pieces, second, file⟩ (entries.flatMap pieces)
        ⟨[], second, file'⟩ := by
  induction entries generalizing emitter file with
  | nil => exact ⟨file, hs, .none⟩
  | cons e entries ih =>
    obtain ⟨-, hmedium, hrun⟩ :=
      Sink.writePieces_run h (pieces_ne_nil e) (entries.flatMap pieces) second
    have hsink : (emitter.emit e).2.sink = some (file.writePieces (pieces e)).2 := by
      rw [Emitter.emit_toSink hs]
    obtain ⟨file', hs', hrest⟩ := ih hsink (by rwa [hmedium])
    exact ⟨file', hs', hrun.trans hrest⟩

/-! ### Lines of records on lines of a file -/

/-- A write call: the line of a record, or a line break. -/
inductive Call where
  | line (e : Entry)
  | ending

namespace Call

def bytes : Call → Bytes
  | line e => Utf8.encode e.line
  | ending => [10]

def record? : Call → Option Entry
  | line e => some e
  | ending => none

def isEnding : Call → Bool
  | line _ => false
  | ending => true

/-- The calls that an emitter makes for its records. -/
def ofRecords (entries : List Entry) : List Call := entries.flatMap fun e => [line e, ending]

theorem map_ofRecords (entries : List Entry) :
    (ofRecords entries).map bytes = entries.flatMap pieces := by
  rw [ofRecords, List.map_flatMap]
  rfl

theorem filterMap_ofRecords (entries : List Entry) :
    (ofRecords entries).filterMap record? = entries := by
  induction entries with
  | nil => rfl
  | cons e entries ih => exact congrArg (e :: ·) ih

theorem countP_ofRecords (entries : List Entry) :
    (ofRecords entries).countP isEnding = entries.length := by
  induction entries with
  | nil => rfl
  | cons e entries ih =>
    rw [List.length_cons, ← ih]
    simp [ofRecords, isEnding, List.countP_cons]

theorem getLast?_ofRecords (entries : List Entry) :
    ∀ call ∈ (ofRecords entries).getLast?, call = ending := by
  intro call hcall
  rcases List.eq_nil_or_concat entries with rfl | ⟨front, e, rfl⟩
  · cases hcall
  · have hlast : (ofRecords (front.concat e)).getLast? = some ending := by
      simp [ofRecords]
    rw [hlast] at hcall
    exact (Option.some.inj hcall).symm

theorem bytes_eq_break_iff (call : Call) : call.bytes = [10] ↔ call.isEnding = true := by
  cases call with
  | line e =>
    obtain ⟨rest, hline⟩ := encode_line_cons e
    simp [bytes, isEnding, hline]
  | ending => simp [bytes, isEnding]

end Call

/-- The records whose lines stand on the lines of a file that are closed, and on the open one. -/
structure Layout where
  closed : List (List Entry)
  opened : List Entry

def Layout.after (layout : Layout) : Call → Layout
  | .line e => ⟨layout.closed, layout.opened ++ [e]⟩
  | .ending => ⟨layout.closed ++ [layout.opened], []⟩

/-- The lines of some records on one line. -/
def joined (group : List Entry) : Bytes := group.flatMap fun e => Utf8.encode e.line

/-- Whether a file looks as a layout tells, after lines that were there before. -/
structure Shows (before : List Bytes) (layout : Layout) (log : Bytes) : Prop where
  closed : closedLines log = before ++ layout.closed.map joined
  opened : openLine log = joined layout.opened

namespace Shows

variable {before : List Bytes} {layout : Layout}

theorem after (h : Shows before layout log) (call : Call) :
    Shows before (layout.after call) (log ++ call.bytes) := by
  cases call with
  | line e =>
    have hcut := cutLines_append (break_not_mem_encode_line e) log
    have hjoined : joined (layout.opened ++ [e]) = joined layout.opened ++ Utf8.encode e.line := by
      simp [joined]
    refine ⟨(congrArg Prod.fst hcut).trans h.closed, (congrArg Prod.snd hcut).trans ?_⟩
    rw [Layout.after, hjoined, h.opened]
  | ending =>
    have hcut := cutLines_append_break log
    refine ⟨(congrArg Prod.fst hcut).trans ?_, congrArg Prod.snd hcut⟩
    simp only [Layout.after, h.closed, h.opened, List.map_append, List.map_cons, List.map_nil,
      List.append_assoc]

theorem all (h : Shows before layout log) (calls : List Call) :
    Shows before (calls.foldl Layout.after layout) (log ++ (calls.map Call.bytes).flatten) := by
  induction calls generalizing layout log with
  | nil => simpa using h
  | cons call calls ih =>
    have hrest := ih (h.after call)
    rwa [List.append_assoc] at hrest

end Shows

namespace Layout

theorem flatten_foldl (layout : Layout) (calls : List Call) :
    (calls.foldl after layout).closed.flatten ++ (calls.foldl after layout).opened =
      layout.closed.flatten ++ layout.opened ++ calls.filterMap Call.record? := by
  induction calls generalizing layout with
  | nil => simp
  | cons call calls ih =>
    rw [List.foldl_cons, ih]
    cases call with
    | line e =>
      have hentry : (Call.line e).record? = some e := rfl
      rw [List.filterMap_cons_some hentry]
      simp [after]
    | ending =>
      rw [List.filterMap_cons_none rfl]
      simp [after]

theorem length_foldl (layout : Layout) (calls : List Call) :
    (calls.foldl after layout).closed.length =
      layout.closed.length + calls.countP Call.isEnding := by
  induction calls generalizing layout with
  | nil => rfl
  | cons call calls ih =>
    rw [List.foldl_cons, ih, List.countP_cons]
    cases call with
    | line e => simp [after, Call.isEnding]
    | ending =>
      simp only [after, Call.isEnding, List.length_append, List.length_singleton, if_true]
      omega

theorem opened_foldl {layout : Layout} (h : layout.opened = []) {calls : List Call}
    (hlast : ∀ call ∈ calls.getLast?, call = .ending) : (calls.foldl after layout).opened = [] := by
  rcases List.eq_nil_or_concat calls with rfl | ⟨front, call, rfl⟩
  · exact h
  · have hending := hlast call (by simp)
    rw [hending, List.concat_eq_append, List.foldl_append]
    rfl

/-- Two calls in a row leave the lines of two records apart. -/
def Apart (call next : Call) : Prop := call.isEnding = true ∨ next.isEnding = true

theorem isChain_map_line {opened : List Entry} :
    (opened.map Call.line).IsChain Apart ↔ opened.length ≤ 1 := by
  match opened with
  | [] => simp
  | [e] => simp
  | e :: e' :: opened => simp [Apart, Call.isEnding]

theorem isChain_append_ending {opened : List Entry} {calls : List Call} :
    (opened.map Call.line ++ .ending :: calls).IsChain Apart ↔
      opened.length ≤ 1 ∧ calls.IsChain Apart := by
  have hending : (.ending :: calls).IsChain Apart ↔ calls.IsChain Apart := by
    rw [List.isChain_cons]
    exact and_iff_right fun _ _ => .inl rfl
  have hbetween : ∀ x ∈ (opened.map Call.line).getLast?, ∀ y ∈ (Call.ending :: calls).head?,
      Apart x y := by
    rintro x - y ⟨⟩
    exact .inr rfl
  rw [List.isChain_append, isChain_map_line, hending]
  exact and_congr_right fun _ => and_iff_left hbetween

/-- No line gets two lines of records exactly if no two calls in a row write such lines. -/
theorem single_foldl_iff (layout : Layout) (calls : List Call) :
    (∀ group ∈ (calls.foldl after layout).closed ++ [(calls.foldl after layout).opened],
        group.length ≤ 1) ↔
      (∀ group ∈ layout.closed, group.length ≤ 1) ∧
        (layout.opened.map Call.line ++ calls).IsChain Apart := by
  induction calls generalizing layout with
  | nil =>
    rw [List.append_nil, isChain_map_line]
    exact List.forall_mem_append.trans (and_congr_right fun _ => List.forall_mem_singleton)
  | cons call calls ih =>
    rw [List.foldl_cons, ih]
    cases call with
    | line e => simp [after]
    | ending =>
      have hclosed : (∀ group ∈ layout.closed ++ [layout.opened], group.length ≤ 1) ↔
          (∀ group ∈ layout.closed, group.length ≤ 1) ∧ layout.opened.length ≤ 1 :=
        List.forall_mem_append.trans (and_congr_right fun _ => List.forall_mem_singleton)
      rw [isChain_append_ending, ← and_assoc, ← hclosed]
      rfl

end Layout

theorem length_flatten_le {groups : List (List α)} (h : ∀ group ∈ groups, group.length ≤ 1) :
    groups.flatten.length ≤ groups.length := by
  induction groups with
  | nil => exact Nat.le_refl _
  | cons group groups ih =>
    obtain ⟨hgroup, hrest⟩ := List.forall_mem_cons.mp h
    have hgroups := ih hrest
    rw [List.flatten_cons, List.length_append, List.length_cons]
    omega

/-- Groups of one at most that hold as many as there are groups hold one each. -/
theorem single_of_length {groups : List (List α)} (h : ∀ group ∈ groups, group.length ≤ 1)
    (hlength : groups.flatten.length = groups.length) : ∀ group ∈ groups, ∃ x, group = [x] := by
  induction groups with
  | nil => exact nofun
  | cons group groups ih =>
    obtain ⟨hgroup, hrest⟩ := List.forall_mem_cons.mp h
    have hgroups := length_flatten_le hrest
    rw [List.flatten_cons, List.length_append, List.length_cons] at hlength
    have hone : group.length = 1 := by omega
    exact List.forall_mem_cons.mpr ⟨List.length_eq_one_iff.mp hone, ih hrest (by omega)⟩

/-! ### What is read back -/

theorem not_reads_nil (e : Entry) : ¬ Reads [] e := by
  rintro ⟨text, hdecode, hvalid⟩
  have hencode : Utf8.encode text = Utf8.encode "" := Utf8.encode_of_decode? hdecode
  have hread := hvalid 0
  rw [Utf8.encode_inj hencode] at hread
  cases hread

/-- A line with lines of records reads as a record if it holds the line of this one only. -/
theorem reads_joined (group : List Entry) (e : Entry) : Reads (joined group) e ↔ group = [e] := by
  rcases List.eq_nil_or_concat group with rfl | ⟨front, last, rfl⟩
  · exact iff_of_false (not_reads_nil e) nofun
  · have hremains : ∀ p ∈ front.map fun e => Utf8.encode e.line, Remains p := by
      intro p hp
      obtain ⟨e', -, rfl⟩ := List.mem_map.mp hp
      obtain ⟨rest, hline⟩ := encode_line_cons e'
      refine ⟨?_, e', List.prefix_rfl⟩
      rw [hline]
      exact List.cons_ne_nil _ _
    have htorn : Torn (joined front) := ⟨_, List.flatMap_def, hremains⟩
    have hjoined : joined (front.concat last) = joined front ++ Utf8.encode last.line := by
      simp [joined]
    have hnil : joined front = [] ↔ front = [] := by
      constructor
      · intro h
        cases front with
        | nil => rfl
        | cons e' front =>
          obtain ⟨rest, hline⟩ := encode_line_cons e'
          simp [joined, hline] at h
      · rintro rfl
        rfl
    rw [hjoined, htorn.reads_iff, hnil, List.concat_eq_append]
    cases front with
    | nil => simp [eq_comm]
    | cons e' front => simp

/-- Whether a file has gained the records of two lists, each on a line of its own that reads as this
record, in an order that is a merge. -/
def Gains (a b : List Entry) (before log : Bytes) : Prop :=
  ∃ merged, Merge a b merged ∧
    closedLines log = closedLines before ++ merged.map (fun e => Utf8.encode e.line) ∧
    openLine log = [] ∧ ∀ e ∈ merged, Reads (Utf8.encode e.line) e

theorem map_joined_single {groups : List (List Entry)} (h : ∀ group ∈ groups, ∃ e, group = [e]) :
    groups.map joined = groups.flatten.map fun e => Utf8.encode e.line := by
  induction groups with
  | nil => rfl
  | cons group groups ih =>
    obtain ⟨⟨e, rfl⟩, hrest⟩ := List.forall_mem_cons.mp h
    have hjoined : joined [e] = Utf8.encode e.line := List.append_nil _
    rw [List.map_cons, ih hrest, hjoined]
    rfl

theorem gains_iff {groups : List (List Entry)} {before log : Bytes}
    (hmerge : Merge a b groups.flatten)
    (hclosed : closedLines log = closedLines before ++ groups.map joined) (hopen : openLine log = []) :
    Gains a b before log ↔ ∀ group ∈ groups, ∃ e, group = [e] := by
  constructor
  · rintro ⟨merged, -, hlines, -, hreads⟩ group hgroup
    have hsame : groups.map joined = merged.map fun e => Utf8.encode e.line :=
      List.append_cancel_left (hclosed.symm.trans hlines)
    have hline : joined group ∈ merged.map fun e => Utf8.encode e.line := by
      rw [← hsame]
      exact List.mem_map_of_mem hgroup
    obtain ⟨e, he, hjoined⟩ := List.mem_map.mp hline
    have hread := hreads e he
    rw [hjoined] at hread
    exact ⟨e, (reads_joined group e).mp hread⟩
  · intro hsingle
    rw [map_joined_single hsingle] at hclosed
    refine ⟨_, hmerge, hclosed, hopen, fun e _ => ?_⟩
    have hjoined : joined [e] = Utf8.encode e.line := List.append_nil _
    rw [← hjoined]
    exact (reads_joined [e] e).mpr rfl

/-- The layout to which the calls of two emitters lead. -/
theorem Layout.of_merge {made : List Call}
    (h : Merge (Call.ofRecords a) (Call.ofRecords b) made) :
    let layout := made.foldl Layout.after ⟨[], []⟩
    layout.opened = [] ∧ Merge a b layout.closed.flatten ∧
      layout.closed.length = a.length + b.length ∧
      ((∀ group ∈ layout.closed, ∃ e, group = [e]) ↔ made.IsChain Apart) := by
  intro layout
  have hlast : ∀ call ∈ made.getLast?, call = .ending := by
    intro call hcall
    rcases h.getLast? with hmade | hmade
    · exact Call.getLast?_ofRecords a call (hmade ▸ hcall)
    · exact Call.getLast?_ofRecords b call (hmade ▸ hcall)
  have hopened : layout.opened = [] := Layout.opened_foldl rfl hlast
  have hentries : layout.closed.flatten = made.filterMap Call.record? := by
    have hflatten := Layout.flatten_foldl ⟨[], []⟩ made
    rwa [hopened, List.append_nil] at hflatten
  have hlength : layout.closed.length = made.countP Call.isEnding :=
    (Layout.length_foldl ⟨[], []⟩ made).trans (Nat.zero_add _)
  rw [h.countP, Call.countP_ofRecords, Call.countP_ofRecords] at hlength
  have hmerge := h.filterMap Call.record?
  rw [Call.filterMap_ofRecords, Call.filterMap_ofRecords, ← hentries] at hmerge
  refine ⟨hopened, hmerge, hlength, ?_⟩
  have hshort : (∀ group ∈ layout.closed, group.length ≤ 1) ↔ made.IsChain Apart := by
    have hiff := Layout.single_foldl_iff ⟨[], []⟩ made
    rw [hopened, List.forall_mem_append, List.forall_mem_singleton] at hiff
    simpa using hiff
  rw [← hshort]
  constructor
  · intro hsingle group hgroup
    obtain ⟨e, rfl⟩ := hsingle group hgroup
    exact Nat.le_refl _
  · exact fun hle => single_of_length hle (hmerge.length.trans hlength.symm)

/-- However two emitters take turns on a file that ended with a line break, it gains as many lines as
there are records, and the records stand on these lines in an order that is a merge. A line reads as a
record if it holds one only. The file gains the records of both, each on a line of its own, exactly if
of any two calls in a row one writes a line break. -/
theorem shared_file_gains_iff {a b : List Entry} {file file' : Sink} {calls : List Bytes}
    (hopen : openLine file.written = [])
    (hrun : Shared.Run ⟨a.flatMap pieces, b.flatMap pieces, file⟩ calls ⟨[], [], file'⟩) :
    (∃ groups : List (List Entry), Merge a b groups.flatten ∧
        groups.length = a.length + b.length ∧
        closedLines file'.written = closedLines file.written ++ groups.map joined ∧
        openLine file'.written = [] ∧
        ∀ group ∈ groups, ∀ e, Reads (joined group) e ↔ group = [e]) ∧
      (Gains a b file.written file'.written ↔
        calls.IsChain fun call next => call = [10] ∨ next = [10]) := by
  obtain ⟨hmerge, hwritten⟩ := hrun.merge rfl rfl
  rw [← Call.map_ofRecords a, ← Call.map_ofRecords b] at hmerge
  obtain ⟨made, hmade, rfl⟩ := hmerge.of_map
  obtain ⟨hopened, hentries, hlength, hsingle⟩ := Layout.of_merge hmade
  have hstart : Shows (closedLines file.written) ⟨[], []⟩ file.written :=
    ⟨(List.append_nil _).symm, hopen⟩
  have hshows := hstart.all made
  rw [← hwritten] at hshows
  have hlast : openLine file'.written = [] := by
    rw [hshows.opened, hopened]
    rfl
  have hchain : (made.map Call.bytes).IsChain (fun call next => call = [10] ∨ next = [10]) ↔
      made.IsChain Layout.Apart := by
    simp only [List.isChain_map, Call.bytes_eq_break_iff]
    rfl
  refine ⟨⟨_, hentries, hlength, hshows.closed, hlast, fun group _ => reads_joined group⟩, ?_⟩
  rw [gains_iff hentries hshows.closed hlast, hsingle, hchain]

/-! ### Two records -/

def recordA : Entry := Emitter.plainRecord "a"

def recordB : Entry := Emitter.plainRecord "b"

def emptyFile : Sink := .new .unlimited

theorem takesAll_emptyFile : emptyFile.medium.TakesAll := Medium.takesAll_unlimited

theorem records_in_turn_gained :
    ∃ calls file', Shared.Run ⟨[recordA].flatMap pieces, [recordB].flatMap pieces, emptyFile⟩ calls
        ⟨[], [], file'⟩ ∧
      openLine emptyFile.written = [] ∧ Gains [recordA] [recordB] emptyFile.written file'.written := by
  have hmerge : Merge ([recordA].flatMap pieces) ([recordB].flatMap pieces)
      [Utf8.encode recordA.line, [10], Utf8.encode recordB.line, [10]] :=
    .left (.left (.right (.right .none)))
  have hchain : [Utf8.encode recordA.line, [10], Utf8.encode recordB.line, [10]].IsChain
      fun call next => call = [10] ∨ next = [10] :=
    .cons_cons (.inr rfl) (.cons_cons (.inl rfl) (.cons_cons (.inr rfl) (.singleton _)))
  obtain ⟨file', hrun⟩ := Shared.Run.of_merge takesAll_emptyFile hmerge
  have hopen : openLine emptyFile.written = [] := rfl
  exact ⟨_, file', hrun, hopen, (shared_file_gains_iff hopen hrun).2.mpr hchain⟩

/-- Both lines are written before both line breaks: no line of the file reads as a record. -/
theorem crossing_records_lost :
    ∃ calls file', Shared.Run ⟨[recordA].flatMap pieces, [recordB].flatMap pieces, emptyFile⟩ calls
        ⟨[], [], file'⟩ ∧
      (∀ line ∈ closedLines file'.written, ∀ e, ¬ Reads line e) ∧
      ¬ Gains [recordA] [recordB] emptyFile.written file'.written := by
  have hmerge : Merge ([recordA].flatMap pieces) ([recordB].flatMap pieces)
      [Utf8.encode recordA.line, Utf8.encode recordB.line, [10], [10]] :=
    .left (.right (.left (.right .none)))
  obtain ⟨file', hrun⟩ := Shared.Run.of_merge takesAll_emptyFile hmerge
  have hclosed : closedLines file'.written = [joined [recordA, recordB], joined []] := by
    rw [(hrun.merge rfl rfl).2]
    decide +kernel
  have hlost : ∀ line ∈ closedLines file'.written, ∀ e, ¬ Reads line e := by
    intro line hline e hreads
    rw [hclosed] at hline
    rcases List.mem_cons.mp hline with hline | hline
    · rw [hline, reads_joined] at hreads
      exact List.cons_ne_nil _ _ (List.cons.inj hreads).2
    · rw [List.mem_singleton.mp hline, reads_joined] at hreads
      exact List.cons_ne_nil _ _ hreads.symm
  refine ⟨_, file', hrun, hlost, ?_⟩
  rintro ⟨merged, hmerged, hlines, -, hreads⟩
  obtain ⟨e, he⟩ : ∃ e, e ∈ merged := by
    refine List.exists_mem_of_length_pos ?_
    rw [hmerged.length]
    decide
  have hline : Utf8.encode e.line ∈ closedLines file'.written := by
    rw [hlines]
    exact List.mem_append_right _ (List.mem_map.mpr ⟨e, he, rfl⟩)
  exact hlost _ hline e (hreads e he)

end LoaderBench.Log
