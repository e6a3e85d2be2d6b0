import LoaderBench.Artifact.Index
import LoaderBench.Proofs.Json.Presentation
import LoaderBench.Proofs.Json.Pretty

/-!
# Indexes are read in every presentation

An index is read from every JSON text that writes it: with the members of the index and of each artifact
in any order and any others among them, with any blanks, and with a variant that is not there left out or
written as null. What must be there must be there, and nothing twice: a text that lacks a member of the
index or of an artifact, or has one twice, is refused as not of the form of an index.
-/

namespace LoaderBench.Artifact

open LoaderBench.Json LoaderBench.Text

/-! ### What drafts tell -/

/-- A value if its name was seen. -/
def told {β : Type} (seen : List String) (name : String) (b : β) : Option β :=
  if name ∈ seen then some b else none

theorem told_isSome {β : Type} (seen : List String) (name : String) (b : β) :
    (told seen name b).isSome = decide (name ∈ seen) := by
  unfold told
  split <;> simp [*]

theorem needed_told {β : Type} {seen : List String} {name : String} (h : name ∈ seen) (b : β) :
    needed name (told seen name b) = .ok b := by
  rw [told, if_pos h]
  rfl

/-- A record of which a field was not seen is not finished. -/
theorem missing_bind {β γ : Type} {seen : List String} {name : String} {b : β}
    {f : β → Except Mismatch γ} (h : name ∈ seen → ∃ m, f b = .error m) :
    ∃ m, (needed name (told seen name b) >>= f) = .error m := by
  by_cases hseen : name ∈ seen
  · rw [needed_told hseen]
    exact h hseen
  · rw [told, if_neg hseen]
    exact ⟨.missing name, rfl⟩

/-- The field of a name, in drafts that are told by the names that were seen. -/
theorem field_told {β δ : Type} {name : String} {kept : δ → Option β} {keep : δ → β → δ}
    {reader : Reader β} {draft : List String → δ} {b : β} {tells : Input → Prop}
    (hkept : ∀ seen, kept (draft seen) = told seen name b)
    (hkeep : ∀ seen, keep (draft seen) b = draft (name :: seen))
    (hread : ∀ w, tells w → Takes reader w b) :
    (∀ seen, (Field.of name kept keep reader).filled (draft seen) = decide (name ∈ seen)) ∧
      ∀ seen w, tells w →
        Takes ((Field.of name kept keep reader).read (draft seen)) w (draft (name :: seen)) := by
  constructor
  · intro seen
    show (kept (draft seen)).isSome = _
    rw [hkept, told_isSome]
  · intro seen w h
    rw [← hkeep]
    exact (hread w h).field _ _ _ _

/-! ### Entries -/

namespace Entry

/-- The texts of a variant that an entry may have. -/
def VariantText : Option Int64 → Input → Prop
  | none, w => w = ['n', 'u', 'l', 'l']
  | some v, w => w = (signed v.toInt).toList

/-- How an entry is written: all of its fields, but a variant that is not there may be left out. -/
def schema (e : Entry) : Schema where
  fields :=
    [("name", TextOf e.name), ("kind", TextOf e.kind.name), ("variant", VariantText e.variant),
     ("sha256", TextOf e.sha256), ("size_bytes", (· = (signed e.sizeBytes.toNat).toList))]
  required := ["name", "kind", "sha256", "size_bytes"]
  optional k := k = "variant" ∧ e.variant = none

/-- The texts that write an entry. -/
def WrittenAs (e : Entry) (w : Input) : Prop := ∃ ms, e.schema.Presents ms ∧ ObjectText ms w

/-- The texts that would write an entry, but lack a member or have one twice. -/
def SpoiledAs (e : Entry) (w : Input) : Prop := ∃ ms, e.schema.Spoils ms ∧ ObjectText ms w

/-- The draft of an entry after the fields of some names. -/
def draftOf (e : Entry) (seen : List String) : Draft :=
  ⟨told seen "name" e.name, told seen "kind" e.kind, told seen "variant" e.variant,
    told seen "sha256" e.sha256, told seen "size_bytes" e.sizeBytes⟩

theorem takes_number (v : Int64) : Takes variantReader (signed v.toInt).toList v := by
  have hlow := v.minValue_le_toInt
  have hhigh := v.toInt_le
  have hmin : Int64.minValue.toInt = -0x8000000000000000 := by decide
  have hmax : Int64.maxValue.toInt = 0x7FFFFFFFFFFFFFFF := by decide
  have hread := (takes_whole "i64" ⟨hlow, hhigh⟩ (by omega)).map Int64.ofInt
  rw [Int64.ofInt_toInt] at hread
  exact hread

theorem takes_variant (v : Option Int64) {w : Input} (h : VariantText v w) :
    Takes (optionalValue variantReader) w v := by
  cases v with
  | none =>
    rw [show w = _ from h]
    exact takes_null variantReader
  | some v =>
    obtain ⟨c, cs, hcs, -, -, hnull⟩ := head_signed v.toInt
    rw [show w = _ from h]
    refine (takes_number v).optional fun d hd => ?_
    rw [hcs] at hd
    exact Option.some.inj hd ▸ hnull

theorem takes_size (n : UInt64) : Takes sizeReader (signed n.toNat).toList n := by
  have hlt : n.toNat < 0x10000000000000000 := n.toNat_lt
  have hrange : 0 ≤ (n.toNat : Int) ∧ (n.toNat : Int) ≤ 0xFFFFFFFFFFFFFFFF := by omega
  have hread := (takes_whole "u64" hrange (by omega)).map fun i => UInt64.ofNat i.toNat
  rw [Int.toNat_natCast, UInt64.ofNat_toNat] at hread
  exact hread

theorem draftOf_next (e : Entry) (seen : List String) :
    { e.draftOf seen with name := some e.name } = e.draftOf ("name" :: seen) ∧
      { e.draftOf seen with kind := some e.kind } = e.draftOf ("kind" :: seen) ∧
      { e.draftOf seen with variant := some e.variant } = e.draftOf ("variant" :: seen) ∧
      { e.draftOf seen with sha256 := some e.sha256 } = e.draftOf ("sha256" :: seen) ∧
      { e.draftOf seen with sizeBytes := some e.sizeBytes } = e.draftOf ("size_bytes" :: seen) := by
  simp [draftOf, told]

theorem finish_draftOf (e : Entry) {seen : List String}
    (h : ∀ k ∈ e.schema.names, k ∈ seen ∨ e.schema.optional k) :
    form.finish (e.draftOf seen) = .ok e := by
  have hseen (k : String) (hk : k ∈ e.schema.names) (hne : k ≠ "variant") : k ∈ seen :=
    (h k hk).resolve_right fun hoptional => hne hoptional.1
  have hname := hseen "name" (by simp [schema, Schema.names]) (by decide)
  have hkind := hseen "kind" (by simp [schema, Schema.names]) (by decide)
  have hsha := hseen "sha256" (by simp [schema, Schema.names]) (by decide)
  have hsize := hseen "size_bytes" (by simp [schema, Schema.names]) (by decide)
  have hvariant : (told seen "variant" e.variant).getD none = e.variant := by
    rcases h "variant" (by simp [schema, Schema.names]) with hmem | ⟨-, hnone⟩
    · rw [told, if_pos hmem]
      rfl
    · rw [told, hnone]
      split <;> rfl
  simp only [form, draftOf, needed_told hname, needed_told hkind, needed_told hsha,
    needed_told hsize, hvariant, bind, Except.bind]

theorem finish_missing (e : Entry) {seen : List String} {k : String} (hk : k ∈ e.schema.required)
    (hunseen : k ∉ seen) : ∃ m, form.finish (e.draftOf seen) = .error m := by
  refine missing_bind fun hname => missing_bind fun hkind => missing_bind fun hsha =>
    missing_bind fun hsize => ?_
  have hall : ∀ k ∈ e.schema.required, k ∈ seen := by
    simp [schema, hname, hkind, hsha, hsize]
  exact absurd (hall k hk) hunseen

theorem fits (e : Entry) : e.schema.Fits form e.draftOf e where
  start := rfl
  names := rfl
  field := by
    have hnext (seen : List String) := e.draftOf_next seen
    simp only [schema, List.forall_mem_cons]
    refine ⟨⟨_, rfl, field_told (fun _ => rfl) (fun seen => (hnext seen).1) fun _ => takes_text⟩,
      ⟨_, rfl, field_told (fun _ => rfl) (fun seen => (hnext seen).2.1) fun _ h =>
        Json.takes_variant h (lookup_kinds e.kind)⟩,
      ⟨_, rfl, field_told (fun _ => rfl) (fun seen => (hnext seen).2.2.1) fun _ => takes_variant _⟩,
      ⟨_, rfl, field_told (fun _ => rfl) (fun seen => (hnext seen).2.2.2.1) fun _ => takes_text⟩,
      ⟨_, rfl, field_told (fun _ => rfl) (fun seen => (hnext seen).2.2.2.2) fun w h => ?_⟩, nofun⟩
    rw [h]
    exact takes_size e.sizeBytes
  finish _ h := e.finish_draftOf h
  missing _ _ hk hunseen := e.finish_missing hk hunseen

/-- What is printed on several lines is one of the texts of an entry. -/
theorem writtenAs_pretty (e : Entry) (depth : Nat) : e.WrittenAs (prettyText depth e.value) := by
  obtain ⟨name, kind, variant, sha256, size⟩ := e
  have htext (t : String) := textOf_pretty (depth + 1) t
  refine ⟨_, ⟨⟨?fields, ?others, ?once⟩, ?all⟩, objectText_pretty depth _⟩
  case fields =>
    cases variant with
    | none =>
      simp only [prettyTexts, variantMember, schema, List.nil_append, List.cons_append, List.map_cons]
      simpa using ⟨htext name, htext kind.name, htext sha256, rfl⟩
    | some v =>
      simp only [prettyTexts, variantMember, schema, List.nil_append, List.cons_append, List.map_cons]
      simpa using ⟨htext name, htext kind.name, rfl, htext sha256, rfl⟩
  all_goals cases variant <;> simp [prettyTexts, variantMember, schema, Schema.names]

variable {e : Entry} {w : Input}

theorem WrittenAs.takes (h : e.WrittenAs w) : Takes form.reader w e := by
  obtain ⟨ms, hpresents, hobject⟩ := h
  exact hpresents.takes e.fits hobject

theorem SpoiledAs.refuses (h : e.SpoiledAs w) : Refuses form.reader w := by
  obtain ⟨ms, hspoils, hobject⟩ := h
  exact hspoils.refuses e.fits hobject

end Entry

/-! ### Indexes -/

namespace Index

/-- How an index is written, when its artifacts are written as said. -/
def schema (index : Index) (artifacts : Input → Prop) : Schema where
  fields :=
    [("index_version", (· = (signed index.version.toNat).toList)), ("run_id", TextOf index.runId),
     ("generated_utc", TextOf index.generated), ("profile", TextOf index.profile),
     ("artifacts", artifacts)]
  required := ["index_version", "run_id", "generated_utc", "profile", "artifacts"]
  optional _ := False

/-- The texts of the artifacts of an index. -/
def Lists (index : Index) : Input → Prop := ListText (index.artifacts.map Entry.WrittenAs)

/-- The texts of the artifacts of an index, of which one lacks a member or has one twice. -/
def ListsSpoiled (index : Index) (w : Input) : Prop :=
  ∃ before e after, index.artifacts = before ++ e :: after ∧
    ListText (before.map Entry.WrittenAs ++ e.SpoiledAs :: after.map Entry.WrittenAs) w

/-- The texts that write an index. -/
def WrittenAs (index : Index) (text : String) : Prop :=
  ∃ ms w, (index.schema index.Lists).Presents ms ∧ ObjectText ms w ∧ Around w text.toList

/-- The texts that would write an index, but lack a member of the index or of one of its artifacts, or
have one twice. -/
def SpoiledAs (index : Index) (text : String) : Prop :=
  ∃ ms w, ((index.schema index.Lists).Spoils ms ∨ (index.schema index.ListsSpoiled).Presents ms) ∧
    ObjectText ms w ∧ Around w text.toList

/-- The draft of an index after the fields of some names. -/
def draftOf (index : Index) (seen : List String) : Draft :=
  ⟨told seen "index_version" index.version, told seen "run_id" index.runId,
    told seen "generated_utc" index.generated, told seen "profile" index.profile,
    told seen "artifacts" index.artifacts⟩

theorem takes_version (n : UInt32) : Takes versionReader (signed n.toNat).toList n := by
  have hlt : n.toNat < 0x100000000 := n.toNat_lt
  have hrange : 0 ≤ (n.toNat : Int) ∧ (n.toNat : Int) ≤ 0xFFFFFFFF := by omega
  have hread := (takes_whole "u32" hrange (by omega)).map fun i => UInt32.ofNat i.toNat
  rw [Int.toNat_natCast, UInt32.ofNat_toNat] at hread
  exact hread

theorem draftOf_next (index : Index) (seen : List String) :
    { index.draftOf seen with version := some index.version } =
        index.draftOf ("index_version" :: seen) ∧
      { index.draftOf seen with runId := some index.runId } = index.draftOf ("run_id" :: seen) ∧
      { index.draftOf seen with generated := some index.generated } =
        index.draftOf ("generated_utc" :: seen) ∧
      { index.draftOf seen with profile := some index.profile } = index.draftOf ("profile" :: seen) ∧
      { index.draftOf seen with artifacts := some index.artifacts } =
        index.draftOf ("artifacts" :: seen) := by
  simp [draftOf, told]

theorem finish_draftOf (index : Index) {artifacts : Input → Prop} {seen : List String}
    (h : ∀ k ∈ (index.schema artifacts).names, k ∈ seen ∨ (index.schema artifacts).optional k) :
    form.finish (index.draftOf seen) = .ok index := by
  have hseen (k : String) (hk : k ∈ (index.schema artifacts).names) : k ∈ seen :=
    (h k hk).resolve_right id
  have hversion := hseen "index_version" (by simp [schema, Schema.names])
  have hrun := hseen "run_id" (by simp [schema, Schema.names])
  have hgenerated := hseen "generated_utc" (by simp [schema, Schema.names])
  have hprofile := hseen "profile" (by simp [schema, Schema.names])
  have hartifacts := hseen "artifacts" (by simp [schema, Schema.names])
  simp only [form, draftOf, needed_told hversion, needed_told hrun, needed_told hgenerated,
    needed_told hprofile, needed_told hartifacts, bind, Except.bind]

theorem finish_missing (index : Index) {artifacts : Input → Prop} {seen : List String} {k : String}
    (hk : k ∈ (index.schema artifacts).required) (hunseen : k ∉ seen) :
    ∃ m, form.finish (index.draftOf seen) = .error m := by
  refine missing_bind fun hversion => missing_bind fun hrun => missing_bind fun hgenerated =>
    missing_bind fun hprofile => missing_bind fun hartifacts => ?_
  have hall : ∀ k ∈ (index.schema artifacts).required, k ∈ seen := by
    simp [schema, hversion, hrun, hgenerated, hprofile, hartifacts]
  exact absurd (hall k hk) hunseen

theorem takes_artifacts {index : Index} {w : Input} (h : index.Lists w) :
    Takes (listValue Entry.form.reader) w index.artifacts :=
  takes_list (fun _ _ _ hwritten => hwritten.takes) h

theorem refuses_artifacts {index : Index} {w : Input} (h : index.ListsSpoiled w) :
    Refuses (listValue Entry.form.reader) w := by
  obtain ⟨before, e, after, -, hlist⟩ := h
  exact refuses_list (fun _ _ _ hwritten => hwritten.takes) (fun _ hspoiled => hspoiled.refuses) hlist

theorem fits (index : Index) : (index.schema index.Lists).Fits form index.draftOf index where
  start := rfl
  names := rfl
  field := by
    have hnext (seen : List String) := index.draftOf_next seen
    simp only [schema, List.forall_mem_cons]
    refine ⟨⟨_, rfl, field_told (fun _ => rfl) (fun seen => (hnext seen).1) fun w h => ?_⟩,
      ⟨_, rfl, field_told (fun _ => rfl) (fun seen => (hnext seen).2.1) fun _ => takes_text⟩,
      ⟨_, rfl, field_told (fun _ => rfl) (fun seen => (hnext seen).2.2.1) fun _ => takes_text⟩,
      ⟨_, rfl, field_told (fun _ => rfl) (fun seen => (hnext seen).2.2.2.1) fun _ => takes_text⟩,
      ⟨_, rfl, field_told (fun _ => rfl) (fun seen => (hnext seen).2.2.2.2) fun _ => takes_artifacts⟩,
      nofun⟩
    rw [h]
    exact takes_version index.version
  finish _ h := index.finish_draftOf h
  missing _ _ hk hunseen := index.finish_missing hk hunseen

/-- An index with an artifact that is refused is refused, as all before it in the text is read. -/
theorem refuses_spoiled_list {index : Index} {ms : List (String × Input)} {w : Input}
    (h : (index.schema index.ListsSpoiled).Presents ms) (hobject : ObjectText ms w) :
    Refuses form.reader w := by
  obtain ⟨list, hlist⟩ := (h.all "artifacts" (by simp [schema, Schema.names])).resolve_right id
  obtain ⟨before, after, rfl⟩ := List.append_of_mem hlist
  have hname : "artifacts" ∈ (index.schema index.ListsSpoiled).names := by simp [schema, Schema.names]
  have halone := h.toWrites.alone hname
  have hspoiled : index.ListsSpoiled list :=
    h.fields _ hlist ("artifacts", index.ListsSpoiled) (by simp [schema]) rfl
  have hfields : ∀ f ∈ (index.schema index.Lists).fields, f.1 ≠ "artifacts" →
      f ∈ (index.schema index.ListsSpoiled).fields := by
    simp [schema]
  have hwrites : (index.schema index.Lists).Writes before := by
    have hbefore := h.toWrites.sublist (List.sublist_append_left before _)
    refine ⟨fun m hm f hf heq => ?_, hbefore.others, hbefore.once⟩
    have hne : f.1 ≠ "artifacts" := heq ▸ halone m (List.mem_append_left _ hm)
    exact hbefore.fields m hm f (hfields f hf hne) heq
  refine index.fits.refuses hwrites hname (.inr ⟨fun m hm => halone m (List.mem_append_left _ hm),
    fun field hfield seen => ?_⟩) hobject
  obtain rfl := Option.some.inj hfield
  exact (refuses_artifacts hspoiled).field _ _ _ _

theorem writtenAs_pretty {index : Index} {ms : Members}
    (h : (index.schema index.Lists).Presents (prettyTexts 1 ms)) :
    index.WrittenAs (pretty (.object ms)) :=
  ⟨_, _, h, objectText_pretty 0 ms, around_pretty _⟩

/-- The text of an index is one of those that write it. -/
theorem writtenAs_text (index : Index) : index.WrittenAs index.text := by
  have htext (t : String) := textOf_pretty 1 t
  have hlist : ListText (index.artifacts.map Entry.WrittenAs)
      (prettyText 1 (.array (index.artifacts.map Entry.value))) :=
    listText_pretty 1 fun e _ => e.writtenAs_pretty 2
  refine writtenAs_pretty ⟨⟨?fields, ?others, ?once⟩, ?all⟩
  case fields =>
    simp only [prettyTexts, schema, List.map_cons, List.map_nil]
    simpa using ⟨rfl, htext index.runId, htext index.generated, htext index.profile, hlist⟩
  all_goals simp [prettyTexts, schema, Schema.names]

variable {index : Index} {text : String}

theorem WrittenAs.append_blank (h : index.WrittenAs text) {blanks : String}
    (hblanks : Json.Blank blanks.toList) : index.WrittenAs (text ++ blanks) := by
  obtain ⟨ms, w, hpresents, hobject, haround⟩ := h
  refine ⟨ms, w, hpresents, hobject, ?_⟩
  rw [String.toList_append]
  exact haround.append_blank hblanks

theorem WrittenAs.parse (h : index.WrittenAs text) : parse text = .ok index := by
  obtain ⟨ms, w, hpresents, hobject, b, b', hb, hb', htext⟩ := h
  exact (hpresents.takes index.fits hobject).readAll hb hb' htext

/-- An index is read from every text that writes it, in whatever order its members and those of its
artifacts come, with any others among them, and with any blanks. A text that lacks a member of the index
or of an artifact, or has one twice, is refused as not of the form of an index. -/
theorem reads_every_presentation (index : Index) (text : String) :
    (index.WrittenAs text → parse text = .ok index) ∧
      (index.SpoiledAs text → ∃ error, parse text = .error error ∧ error.category = .mismatch) := by
  constructor
  · exact WrittenAs.parse
  · rintro ⟨ms, w, hspoils | hpresents, hobject, b, b', hb, hb', htext⟩
    · exact (hspoils.refuses index.fits hobject).readAll hb hb' htext
    · exact (refuses_spoiled_list hpresents hobject).readAll hb hb' htext

/-! ### Members in another order -/

/-- An artifact without a variant, and an index of it alone. -/
def lone : Entry := ⟨"n", .host, none, "", 2⟩

def single : Index := ⟨1, "r", "t", "debug", [lone]⟩

/-- The members of the artifact but its name, with a variant that is null. -/
def nameless : Members :=
  [("size_bytes", .integer 2), ("variant", .scalar .null), ("sha256", .text ""), ("kind", .text "host")]

/-- The index with its members in another order, and one among them of which it knows nothing. -/
def shuffled (artifact : Members) : Members :=
  [("artifacts", .array [.object artifact]), ("profile", .text "debug"), ("x", .array []),
   ("generated_utc", .text "t"), ("run_id", .text "r"), ("index_version", .integer 1)]

theorem presents_nameless (depth : Nat) :
    lone.schema.Presents (prettyTexts depth (nameless ++ [("name", .text "n")])) := by
  have htext (t : String) := textOf_pretty depth t
  refine ⟨⟨?fields, ?others, ?once⟩, ?all⟩
  case fields =>
    simp only [prettyTexts, nameless, lone, Entry.schema, List.cons_append, List.nil_append, List.map_cons,
      List.map_nil]
    simpa using ⟨rfl, rfl, htext "", htext "host", htext "n"⟩
  all_goals simp [prettyTexts, nameless, lone, Entry.schema, Schema.names]

theorem presents_shuffled {artifact : Members} {artifacts : Input → Prop}
    (h : artifacts (prettyText 1 (.array [.object artifact]))) :
    (single.schema artifacts).Presents (prettyTexts 1 (shuffled artifact)) := by
  have htext (t : String) := textOf_pretty 1 t
  have hvalue : IsValue (prettyText 1 (.array [])) := @IsValue.array [] _ nofun (.empty blank_nil)
  refine ⟨⟨?fields, ?others, ?once⟩, ?all⟩
  case fields =>
    simp only [prettyTexts, shuffled, schema, List.map_cons, List.map_nil]
    simpa using ⟨h, htext "debug", htext "t", htext "r", rfl⟩
  all_goals simp [prettyTexts, shuffled, schema, Schema.names, hvalue]

theorem shuffled_is_read :
    parse (pretty (.object (shuffled (nameless ++ [("name", .text "n")])))) = .ok single ∧
      ∃ error, parse (pretty (.object (shuffled nameless))) = .error error ∧
        error.category = .mismatch := by
  have hwhole : single.Lists (prettyText 1 (.array [.object (nameless ++ [("name", .text "n")])])) :=
    listText_single 1 ⟨_, presents_nameless 3, objectText_pretty 2 _⟩
  have hlacks : lone.schema.Spoils (prettyTexts 3 nameless ++ []) :=
    .lacks (m := ("name", prettyText 3 (.text "n"))) (presents_nameless 3) (by simp [Entry.schema])
  rw [List.append_nil] at hlacks
  have hspoiled : single.ListsSpoiled (prettyText 1 (.array [.object nameless])) :=
    ⟨[], lone, [], rfl, listText_single 1 ⟨_, hlacks, objectText_pretty 2 _⟩⟩
  constructor
  · exact (reads_every_presentation single _).1 (writtenAs_pretty (presents_shuffled hwhole))
  · exact (reads_every_presentation single _).2
      ⟨_, _, .inr (presents_shuffled hspoiled), objectText_pretty 0 _, around_pretty _⟩

end Index
end LoaderBench.Artifact
