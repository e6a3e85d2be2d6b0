import LoaderBench.Proofs.Json.Record

/-!
# Presentations of a record

A record can be written as an object in many ways: its members in any order, others among them, and
some left out that may be. A *schema* tells how the members of one record are written. A form fits it if
its drafts are told by the names that were seen, in whatever order they came, so that every presentation
comes to the same record; one that lacks a member, or has one twice, is refused.
-/

namespace LoaderBench.Json

variable {α δ : Type}

/-- How the members of a record are written: its fields with what text tells each, those that no record
may lack, and those that this record may leave out. -/
structure Schema where
  fields : List (String × (Input → Prop))
  required : List String
  optional : String → Prop

namespace Schema

def names (schema : Schema) : List String := schema.fields.map Prod.fst

/-- Members that are written as the schema says, no field twice, with any others among them. -/
structure Writes (schema : Schema) (ms : List (String × Input)) : Prop where
  fields : ∀ m ∈ ms, ∀ f ∈ schema.fields, f.1 = m.1 → f.2 m.2
  others : ∀ m ∈ ms, m.1 ∉ schema.names → IsValue m.2
  once : ms.Pairwise fun m m' => m.1 ∈ schema.names → m.1 ≠ m'.1

/-- Members that write all of a record. -/
structure Presents (schema : Schema) (ms : List (String × Input)) : Prop extends schema.Writes ms where
  all : ∀ k ∈ schema.names, (∃ w, (k, w) ∈ ms) ∨ schema.optional k

/-- Members that would write all of a record, but one that is required is left out, or a field is
written once more. -/
inductive Spoils (schema : Schema) : List (String × Input) → Prop where
  | lacks {before after : List (String × Input)} {m : String × Input}
      (h : schema.Presents (before ++ m :: after)) (hm : m.1 ∈ schema.required) :
      Spoils schema (before ++ after)
  | twice {before between after : List (String × Input)} {m : String × Input} {w : Input}
      (h : schema.Presents (before ++ m :: (between ++ after))) (hm : m.1 ∈ schema.names)
      (hw : IsValue w) : Spoils schema (before ++ m :: (between ++ (m.1, w) :: after))

/-- A form whose drafts are told by the names that were seen, whatever order they came in. -/
structure Fits (schema : Schema) (form : Form δ α) (draft : List String → δ) (a : α) : Prop where
  start : form.start = draft []
  names : form.fields.map (·.name) = schema.names
  field : ∀ f ∈ schema.fields, ∃ field, form.fields.find? (·.name == f.1) = some field ∧
    (∀ seen, field.filled (draft seen) = decide (f.1 ∈ seen)) ∧
    ∀ seen w, f.2 w → Takes (field.read (draft seen)) w (draft (f.1 :: seen))
  finish : ∀ seen, (∀ k ∈ schema.names, k ∈ seen ∨ schema.optional k) →
    form.finish (draft seen) = .ok a
  missing : ∀ seen, ∀ k ∈ schema.required, k ∉ seen → ∃ m, form.finish (draft seen) = .error m

variable {schema : Schema} {ms ms' : List (String × Input)}

theorem Writes.sublist (h : schema.Writes ms) (hms : ms'.Sublist ms) : schema.Writes ms' :=
  ⟨fun m hm => h.fields m (hms.subset hm), fun m hm => h.others m (hms.subset hm), h.once.sublist hms⟩

/-- Nothing else among the members has the name of a field that is written. -/
theorem Writes.alone {before after : List (String × Input)} {m : String × Input}
    (h : schema.Writes (before ++ m :: after)) (hm : m.1 ∈ schema.names) :
    ∀ m' ∈ before ++ after, m'.1 ≠ m.1 := by
  obtain ⟨-, hafter, hbefore⟩ := List.pairwise_append.mp h.once
  intro m' hm' heq
  rcases List.mem_append.mp hm' with hmem | hmem
  · exact hbefore m' hmem m List.mem_cons_self (heq ▸ hm) heq
  · exact (List.pairwise_cons.mp hafter).1 m' hmem hm heq.symm

variable {form : Form δ α} {draft : List String → δ} {a : α} {w : Input}

theorem Fits.other (hfits : schema.Fits form draft a) {k : String} (hk : k ∉ schema.names) :
    form.fields.find? (·.name == k) = none := by
  refine List.find?_eq_none.mpr fun field hfield hname => hk ?_
  rw [← hfits.names, ← beq_iff_eq.mp hname]
  exact List.mem_map_of_mem hfield

/-- Members that are written as the schema says take the draft to the names that are among them. -/
theorem Fits.goes (hfits : schema.Fits form draft a) (h : schema.Writes ms) (seen : List String)
    (hnew : ∀ m ∈ ms, m.1 ∈ schema.names → m.1 ∉ seen) :
    ∃ all, Goes form (draft seen) ms (draft all) ∧
      ∀ k, k ∈ all ↔ k ∈ seen ∨ k ∈ schema.names ∧ ∃ w, (k, w) ∈ ms := by
  induction ms generalizing seen with
  | nil => exact ⟨seen, .none, fun k => by simp⟩
  | cons m ms ih =>
    obtain ⟨k, w⟩ := m
    have htail := h.sublist (List.sublist_cons_self _ _)
    have hnewtail : ∀ m ∈ ms, m.1 ∈ schema.names → m.1 ∉ seen := fun m hm =>
      hnew m (List.mem_cons_of_mem _ hm)
    by_cases hk : k ∈ schema.names
    · obtain ⟨⟨k, tells⟩, hf, rfl⟩ := List.mem_map.mp hk
      obtain ⟨field, hfield, hfilled, hread⟩ := hfits.field _ hf
      have hunseen : k ∉ seen := hnew (k, w) List.mem_cons_self hk
      have hempty : field.filled (draft seen) = false := by
        rw [hfilled, decide_eq_false hunseen]
      have hnext := hread seen w (h.fields _ List.mem_cons_self _ hf rfl)
      have hnew' : ∀ m ∈ ms, m.1 ∈ schema.names → m.1 ∉ k :: seen := by
        intro m hm hname hmem
        rcases List.mem_cons.mp hmem with heq | hmem
        · exact (List.pairwise_cons.mp h.once).1 m hm hk heq.symm
        · exact hnewtail m hm hname hmem
      obtain ⟨all, hgoes, hall⟩ := ih htail _ hnew'
      refine ⟨all, .next (.field hfield hempty hnext) hgoes, fun k' => ?_⟩
      rw [hall, List.mem_cons]
      constructor
      · rintro ((rfl | hseen) | ⟨hname, w', hw'⟩)
        · exact .inr ⟨hk, w, List.mem_cons_self⟩
        · exact .inl hseen
        · exact .inr ⟨hname, w', List.mem_cons_of_mem _ hw'⟩
      · rintro (hseen | ⟨hname, w', hw'⟩)
        · exact .inl (.inr hseen)
        · rcases List.mem_cons.mp hw' with heq | hw'
          · exact .inl (.inl (Prod.mk.inj heq).1)
          · exact .inr ⟨hname, w', hw'⟩
    · obtain ⟨all, hgoes, hall⟩ := ih htail _ hnewtail
      have hvalue := h.others (k, w) List.mem_cons_self hk
      refine ⟨all, .next (.extra (hfits.other hk) hvalue) hgoes, fun k' => ?_⟩
      rw [hall]
      refine or_congr_right (and_congr_right fun hname => exists_congr fun w' => ?_)
      refine ⟨List.mem_cons_of_mem _, fun hw' => ?_⟩
      rcases List.mem_cons.mp hw' with heq | hw'
      · exact absurd ((Prod.mk.inj heq).1 ▸ hname) hk
      · exact hw'

/-- Every presentation of a record is read as the record. -/
theorem Presents.takes (h : schema.Presents ms) (hfits : schema.Fits form draft a)
    (hobject : ObjectText ms w) : Takes form.reader w a := by
  obtain ⟨all, hgoes, hall⟩ := hfits.goes h.toWrites [] fun _ _ _ => List.not_mem_nil
  rw [← hfits.start] at hgoes
  refine hgoes.takes hobject (hfits.finish all fun k hk => ?_)
  rcases h.all k hk with hw | hoptional
  · exact .inl ((hall k).mpr (.inr ⟨hk, hw⟩))
  · exact .inr hoptional

/-- A record is refused at a field whose text is refused, or that was read before. -/
theorem Fits.refuses {before after : List (String × Input)} {m : String × Input}
    (hfits : schema.Fits form draft a) (h : schema.Writes before) (hm : m.1 ∈ schema.names)
    (hbad : (∃ w, (m.1, w) ∈ before) ∨ (∀ m' ∈ before, m'.1 ≠ m.1) ∧
      ∀ field, form.fields.find? (·.name == m.1) = some field →
        ∀ seen, Refuses (field.read (draft seen)) m.2)
    (hobject : ObjectText (before ++ m :: after) w) : Refuses form.reader w := by
  obtain ⟨k, v⟩ := m
  obtain ⟨⟨k, tells⟩, hf, rfl⟩ := List.mem_map.mp hm
  obtain ⟨field, hfield, hfilled, -⟩ := hfits.field _ hf
  obtain ⟨all, hgoes, hall⟩ := hfits.goes h [] fun _ _ _ => List.not_mem_nil
  rw [← hfits.start] at hgoes
  have hhalts : Halts form (draft all) (k, v) := by
    rcases hbad with hseen | ⟨hnew, hrefuses⟩
    · refine .repeated hfield ?_
      rw [hfilled, decide_eq_true ((hall k).mpr (.inr ⟨hm, hseen⟩))]
    · refine .refused hfield ?_ (hrefuses field hfield all)
      rw [hfilled]
      refine decide_eq_false fun hmem => ?_
      rcases (hall k).mp hmem with hnil | ⟨-, w', hw'⟩
      · exact List.not_mem_nil hnil
      · exact hnew (k, w') hw' rfl
  exact hhalts.refuses hgoes hobject

/-- A spoiled presentation is refused. -/
theorem Spoils.refuses (h : schema.Spoils ms) (hfits : schema.Fits form draft a)
    (hobject : ObjectText ms w) : Refuses form.reader w := by
  cases h with
  | @lacks before after m h hm =>
    have hwrites := h.toWrites.sublist
      (List.Sublist.append_left (List.sublist_cons_self m after) before)
    obtain ⟨all, hgoes, hall⟩ := hfits.goes hwrites [] fun _ _ _ => List.not_mem_nil
    rw [← hfits.start] at hgoes
    refine hgoes.refuses hobject (hfits.missing all m.1 hm fun hmem => ?_)
    rcases (hall m.1).mp hmem with hnil | ⟨hname, w', hw'⟩
    · exact List.not_mem_nil hnil
    · exact h.toWrites.alone hname (m.1, w') hw' rfl
  | @twice before between after m w h hm hw =>
    have htext : before ++ m :: (between ++ (m.1, w) :: after) =
        (before ++ m :: between) ++ (m.1, w) :: after := by
      simp only [List.append_assoc, List.cons_append]
    have hsub : (before ++ m :: between).Sublist (before ++ m :: (between ++ after)) :=
      List.Sublist.append_left (List.Sublist.cons_cons m (List.sublist_append_left _ _)) before
    rw [htext] at hobject
    refine hfits.refuses (m := (m.1, w)) (h.toWrites.sublist hsub) hm (.inl ⟨m.2, ?_⟩) hobject
    exact List.mem_append_right _ List.mem_cons_self

end Schema
end LoaderBench.Json
