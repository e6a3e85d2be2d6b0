import LoaderBench.Proofs.Artifact.Presentation

/-!
# Indexes are read back

The text of an index, as it stands in its file, is read as this index.
-/

namespace LoaderBench.Artifact

open LoaderBench.Json

/-! ### Entries -/

namespace Entry

theorem readsBack_variant (v : Int64) : ReadsBack variantReader (.integer v.toInt) v :=
  readsBack_integer (takes_number v)

theorem readsBack_size (n : UInt64) : ReadsBack sizeReader (.integer n.toNat) n :=
  readsBack_integer (takes_size n)

theorem readsBack_kind (kind : Kind) : ReadsBack (variantValue kinds) (.text kind.name) kind :=
  Json.readsBack_variant (lookup_kinds kind)

/-- The members of an entry are those of its form, and tell the entry. -/
theorem fills (e : Entry) :
    ∃ ms last, e.value = .object ms ∧ Fills form form.start ms last ∧ form.finish last = .ok e := by
  obtain ⟨name, kind, variant, sha256, size⟩ := e
  have hsize (draft : Draft) := (readsBack_size size).field "size_bytes" Draft.sizeBytes
    (fun d v => { d with sizeBytes := some v }) draft
  have hsha (draft : Draft) := (readsBack_text sha256).field "sha256" Draft.sha256
    (fun d v => { d with sha256 := some v }) draft
  have hname (draft : Draft) := (readsBack_text name).field "name" Draft.name
    (fun d v => { d with name := some v }) draft
  have hkind (draft : Draft) := (readsBack_kind kind).field "kind" Draft.kind
    (fun d v => { d with kind := some v }) draft
  cases variant with
  | none =>
    have hfills : Fills form form.start
        [("name", .text name), ("kind", .text kind.name), ("sha256", .text sha256),
          ("size_bytes", .integer size.toNat)]
        ⟨some name, some kind, none, some sha256, some size⟩ :=
      .next rfl rfl (hname _) <| .next rfl rfl (hkind _) <| .next rfl rfl (hsha _) <|
        .next rfl rfl (hsize _) .none
    exact ⟨_, _, rfl, hfills, rfl⟩
  | some v =>
    have hvariant (draft : Draft) := (readsBack_variant v).optional.field "variant" Draft.variant
      (fun d v => { d with variant := some v }) draft
    have hfills : Fills form form.start
        [("name", .text name), ("kind", .text kind.name), ("variant", .integer v.toInt),
          ("sha256", .text sha256), ("size_bytes", .integer size.toNat)]
        ⟨some name, some kind, some (some v), some sha256, some size⟩ :=
      .next rfl rfl (hname _) <| .next rfl rfl (hkind _) <| .next rfl rfl (hvariant _) <|
        .next rfl rfl (hsha _) <| .next rfl rfl (hsize _) .none
    exact ⟨_, _, rfl, hfills, rfl⟩

theorem readsBack (e : Entry) : ReadsBack form.reader e.value e := by
  obtain ⟨ms, last, hvalue, hfills, hfinish⟩ := e.fills
  rw [hvalue]
  exact hfills.readsBack hfinish

end Entry

/-! ### Indexes -/

namespace Index

theorem readsBack_version (n : UInt32) : ReadsBack versionReader (.integer n.toNat) n :=
  readsBack_integer (takes_version n)

/-- The members of an index are those of its form, and tell the index. -/
theorem fills (index : Index) :
    ∃ ms last, index.value = .object ms ∧ Fills form form.start ms last ∧
      form.finish last = .ok index := by
  obtain ⟨version, runId, generated, profile, artifacts⟩ := index
  have hartifacts := readsBack_list fun (e : Entry) (_ : e ∈ artifacts) => e.readsBack
  have hfills : Fills form form.start
      [("index_version", .integer version.toNat), ("run_id", .text runId),
        ("generated_utc", .text generated), ("profile", .text profile),
        ("artifacts", .array (artifacts.map Entry.value))]
      ⟨some version, some runId, some generated, some profile, some artifacts⟩ :=
    .next rfl rfl ((readsBack_version version).field "index_version" Draft.version _ _) <|
      .next rfl rfl ((readsBack_text runId).field "run_id" Draft.runId _ _) <|
      .next rfl rfl ((readsBack_text generated).field "generated_utc" Draft.generated _ _) <|
      .next rfl rfl ((readsBack_text profile).field "profile" Draft.profile _ _) <|
      .next rfl rfl (hartifacts.field "artifacts" Draft.artifacts _ _) .none
  exact ⟨_, _, rfl, hfills, rfl⟩

theorem readsBack (index : Index) : ReadsBack form.reader index.value index := by
  obtain ⟨ms, last, hvalue, hfills, hfinish⟩ := index.fills
  rw [hvalue]
  exact hfills.readsBack hfinish

/-- The text of an index is read as this index. -/
theorem parse_pretty (index : Index) : parse index.text = .ok index := index.writtenAs_text.parse

/-- The file of an index holds its text and a line break, and is read as this index. -/
theorem parse_text (index : Index) : parse (index.text ++ "\n") = .ok index := by
  have hbreak : Json.Blank "\n".toList := blank_newline 0
  exact (index.writtenAs_text.append_blank hbreak).parse

end Index
end LoaderBench.Artifact
