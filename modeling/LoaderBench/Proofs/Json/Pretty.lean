import LoaderBench.Proofs.Json.Record

/-!
# Values on several lines are read back

A reader of a known form undoes the printer on the values of this form, at any depth of indentation and
whatever blanks come before (`ReadsBack`). What is printed on several lines is one of the layouts of a
text, an array or an object, so it is read as every layout is. The members of a record are those of
fields which are not filled yet, and each takes the draft one field further.
-/

namespace LoaderBench.Json

open LoaderBench.Text

variable {α β δ : Type}

/-! ### Layouts -/

theorem blank_newline (depth : Nat) : Blank (newline depth) := by
  intro c hc
  rcases List.mem_cons.mp hc with rfl | hc
  · decide
  · rw [List.eq_of_mem_replicate hc]
    decide

theorem skipBlanks_newline (depth : Nat) (s : Input) :
    skipBlanks (newline depth ++ s) = skipBlanks s := (blank_newline depth).skipBlanks s

theorem textOf_pretty (depth : Nat) (t : String) : TextOf t (prettyText depth (.text t)) :=
  ⟨t.toList.flatMap escaped, spells_escaped t.toList, rfl⟩

section Layouts

variable {W : α → Input → Prop} {write : α → Value} {as : List α}

theorem following_prettyItems (depth : Nat) (h : ∀ a ∈ as, W a (prettyText (depth + 1) (write a))) :
    ∃ trail t, Blank trail ∧ Following ']' ItemText (as.map W) t ∧
      prettyItems depth (as.map write) = trail ++ t := by
  induction as with
  | nil => exact ⟨newline depth, [']'], blank_newline depth, .closes, rfl⟩
  | cons a as ih =>
    obtain ⟨trail, t, htrail, hfollowing, htext⟩ := ih fun a ha => h a (List.mem_cons_of_mem _ ha)
    have hitem : ItemText (W a) (newline (depth + 1) ++ (prettyText (depth + 1) (write a) ++ trail)) :=
      ⟨_, h a List.mem_cons_self, _, trail, blank_newline _, htrail, rfl⟩
    refine ⟨[], _, blank_nil, .next hitem hfollowing, ?_⟩
    simp only [List.map_cons, prettyItems, htext, List.cons_append, List.nil_append, List.append_assoc]

/-- An array on several lines is one of its texts. -/
theorem listText_pretty (depth : Nat) (h : ∀ a ∈ as, W a (prettyText (depth + 1) (write a))) :
    ListText (as.map W) (prettyText depth (.array (as.map write))) := by
  cases as with
  | nil => exact .empty blank_nil
  | cons a as =>
    obtain ⟨trail, t, htrail, hfollowing, htext⟩ :=
      following_prettyItems depth fun a ha => h a (List.mem_cons_of_mem _ ha)
    have hitem : ItemText (W a) (newline (depth + 1) ++ (prettyText (depth + 1) (write a) ++ trail)) :=
      ⟨_, h a List.mem_cons_self, _, trail, blank_newline _, htrail, rfl⟩
    have hlist : ListText (W a :: as.map W) _ := .parts hitem hfollowing
    simpa only [ListText, List.map_cons, prettyText, htext, List.cons_append, List.append_assoc]
      using hlist

theorem listText_single (depth : Nat) {rel : Input → Prop} {v : Value}
    (h : rel (prettyText (depth + 1) v)) : ListText [rel] (prettyText depth (.array [v])) :=
  @listText_pretty Unit (fun _ => rel) (fun _ => v) [()] depth fun _ _ => h

/-- The members of an object, with their values on several lines. -/
def prettyTexts (depth : Nat) (ms : Members) : List (String × Input) :=
  ms.map fun m => (m.1, prettyText depth m.2)

theorem keyedText_pretty (depth : Nat) (k : String) (v : Value) {trail : Input} (htrail : Blank trail) :
    KeyedText (k, prettyText depth v)
      (newline depth ++ (stringText k ++ [':', ' '] ++ prettyText depth v ++ trail)) := by
  have hspace : Blank [' '] := by
    intro c hc
    rw [List.mem_singleton.mp hc]
    decide
  refine ⟨newline depth, k.toList.flatMap escaped, [], ' ' :: (prettyText depth v ++ trail),
    blank_newline depth, spells_escaped k.toList, blank_nil, ⟨[' '], trail, hspace, htrail, rfl⟩, ?_⟩
  simp [stringText]

theorem following_prettyMembers (depth : Nat) (ms : Members) :
    ∃ trail t, Blank trail ∧ Following '\x7d' KeyedText (prettyTexts (depth + 1) ms) t ∧
      prettyMembers depth ms = trail ++ t := by
  induction ms with
  | nil => exact ⟨newline depth, ['\x7d'], blank_newline depth, .closes, rfl⟩
  | cons m ms ih =>
    obtain ⟨k, v⟩ := m
    obtain ⟨trail, t, htrail, hfollowing, htext⟩ := ih
    refine ⟨[], _, blank_nil, .next (keyedText_pretty (depth + 1) k v htrail) hfollowing, ?_⟩
    simp only [prettyMembers, htext, List.cons_append, List.nil_append, List.append_assoc]

/-- An object on several lines is one of its texts. -/
theorem objectText_pretty (depth : Nat) (ms : Members) :
    ObjectText (prettyTexts (depth + 1) ms) (prettyText depth (.object ms)) := by
  cases ms with
  | nil => exact .empty blank_nil
  | cons m ms =>
    obtain ⟨k, v⟩ := m
    obtain ⟨trail, t, htrail, hfollowing, htext⟩ := following_prettyMembers depth ms
    have hobject : ObjectText ((k, prettyText (depth + 1) v) :: prettyTexts (depth + 1) ms) _ :=
      .parts (keyedText_pretty (depth + 1) k v htrail) hfollowing
    simpa only [ObjectText, prettyTexts, List.map_cons, prettyText, htext, List.cons_append,
      List.append_assoc] using hobject

theorem around_pretty (v : Value) : Around (prettyText 0 v) (pretty v).toList := by
  refine ⟨[], [], blank_nil, blank_nil, ?_⟩
  rw [pretty, String.toList_ofList, List.append_nil, List.nil_append]

end Layouts

/-! ### Reading back -/

/-- A character that begins a value which is there: no blank, no bracket that closes a list, and not
the first letter of null. -/
def BeginsValue (c : Char) : Prop := isBlank c = false ∧ c ≠ ']' ∧ c ≠ 'n'

/-- A reader takes the written form of a value for `a`. -/
structure ReadsBack (reader : Reader α) (v : Value) (a : α) : Prop where
  front : ∀ depth, ∃ c cs, prettyText depth v = c :: cs ∧ BeginsValue c
  read : ∀ (depth : Nat) (s rest : Input), EndsNumber rest →
    skipBlanks s = prettyText depth v ++ rest → reader s = .ok (a, rest)

variable {reader : Reader α} {v : Value} {a : α}

theorem ReadsBack.skipBlanks (h : ReadsBack reader v a) (depth : Nat) (rest : Input) :
    skipBlanks (prettyText depth v ++ rest) = prettyText depth v ++ rest := by
  obtain ⟨c, cs, hcs, hblank, -⟩ := h.front depth
  rw [hcs, List.cons_append, skipBlanks_cons hblank]

theorem ReadsBack.takes (h : ReadsBack reader v a) (depth : Nat) :
    Takes reader (prettyText depth v) a := by
  obtain ⟨c, cs, hcs, hblank, hclose, -⟩ := h.front depth
  exact ⟨⟨c, cs, hcs, hblank, hclose⟩, h.read depth⟩

theorem ReadsBack.map (h : ReadsBack reader v a) (f : α → β) :
    ReadsBack (fun s => do
      let (a, rest) ← reader s
      .ok (f a, rest)) v (f a) := ⟨h.front, fun depth => ((h.takes depth).map f).read⟩

/-! ### Single values -/

theorem front_text (depth : Nat) (t : String) :
    ∃ c cs, prettyText depth (.text t) = c :: cs ∧ BeginsValue c :=
  ⟨'"', _, rfl, by decide, by decide, by decide⟩

theorem readsBack_text (t : String) : ReadsBack textValue (.text t) t :=
  ⟨fun depth => front_text depth t, fun depth => (takes_text (textOf_pretty depth t)).read⟩

theorem readsBack_variant {variants : List (String × α)} {name : String}
    (h : variants.lookup name = some a) : ReadsBack (variantValue variants) (.text name) a :=
  ⟨fun depth => front_text depth name, fun depth => (takes_variant (textOf_pretty depth name) h).read⟩

theorem readsBack_integer {i : Int} (h : Takes reader (signed i).toList a) :
    ReadsBack reader (.integer i) a := ⟨fun _ => head_signed i, fun _ => h.read⟩

/-- A value that is there is read as some value. -/
theorem ReadsBack.optional (h : ReadsBack reader v a) :
    ReadsBack (optionalValue reader) v (some a) := by
  refine ⟨h.front, fun depth => ((h.takes depth).optional fun d hd => ?_).read⟩
  obtain ⟨c, cs, hcs, -, -, hnull⟩ := h.front depth
  rw [hcs] at hd
  exact Option.some.inj hd ▸ hnull

/-! ### Lists -/

theorem readsBack_list {write : α → Value} {as : List α}
    (h : ∀ a ∈ as, ReadsBack reader (write a) a) :
    ReadsBack (listValue reader) (.array (as.map write)) as := by
  have hlist (depth : Nat) := listText_pretty depth
    (W := fun a w => a ∈ as ∧ w = prettyText (depth + 1) (write a)) fun a ha => ⟨ha, rfl⟩
  refine ⟨fun depth => ⟨'[', ?_⟩, fun depth => (takes_list ?_ (hlist depth)).read⟩
  · cases as <;> exact ⟨_, rfl, by decide, by decide, by decide⟩
  · rintro a - w ⟨ha, rfl⟩
    exact (h a ha).takes (depth + 1)

/-! ### Records -/

/-- Members that take a draft to another: each is that of a field which is not filled yet, whose
reader takes its value. -/
inductive Fills (form : Form δ α) : δ → Members → δ → Prop where
  | none {draft : δ} : Fills form draft [] draft
  | next {draft mid last : δ} {field : Field δ} {k : String} {v : Value} {ms : Members} :
      form.fields.find? (·.name == k) = some field → field.filled draft = false →
      ReadsBack (field.read draft) v mid → Fills form mid ms last →
      Fills form draft ((k, v) :: ms) last

variable {form : Form δ α} {draft mid last : δ} {ms : Members}

theorem Fills.goes (h : Fills form draft ms last) (depth : Nat) :
    Goes form draft (prettyTexts depth ms) last := by
  induction h with
  | none => exact .none
  | next hfield hfilled hread _ ih => exact .next (.field hfield hfilled (hread.takes depth)) ih

/-- A record is read back from an object whose members fill its draft. -/
theorem Fills.readsBack (h : Fills form form.start ms last) (hfinish : form.finish last = .ok a) :
    ReadsBack form.reader (.object ms) a := by
  refine ⟨fun depth => ⟨'\x7b', ?_⟩, fun depth => ((h.goes (depth + 1)).takes
    (objectText_pretty depth ms) hfinish).read⟩
  cases ms <;> exact ⟨_, rfl, by decide, by decide, by decide⟩

/-- The reader of a field puts what it reads in the field's place. -/
theorem ReadsBack.field (h : ReadsBack reader v a) (name : String) (kept : δ → Option α)
    (keep : δ → α → δ) (draft : δ) :
    ReadsBack ((Field.of name kept keep reader).read draft) v (keep draft a) :=
  h.map (keep draft)

end LoaderBench.Json
