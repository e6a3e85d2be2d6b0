import LoaderBench.Proofs.Artifact.Reading
import LoaderBench.Proofs.Json.Unfinished

/-!
# Indexes that end too early

The text of an index that lost its end, be it one character or all of them, is never read as an index,
not as a shorter one either, and what is wrong with it is that it ends.
-/

namespace LoaderBench.Artifact

open LoaderBench.Json

/-! ### Entries -/

namespace Entry

theorem breaksOff_variant (v : Int64) : BreaksOff variantReader (.integer v.toInt) := by
  have hlow := v.minValue_le_toInt
  have hhigh := v.toInt_le
  have hmin : Int64.minValue.toInt = -0x8000000000000000 := by decide
  have hmax : Int64.maxValue.toInt = 0x7FFFFFFFFFFFFFFF := by decide
  exact (breaksOff_whole "i64" (by omega) ⟨hlow, hhigh⟩ (by omega)).map Int64.ofInt

theorem breaksOff_size (n : UInt64) : BreaksOff sizeReader (.integer n.toNat) := by
  have hlt : n.toNat < 0x10000000000000000 := n.toNat_lt
  exact (breaksOff_whole "u64" (by omega) (by omega) (by omega)).map fun i => UInt64.ofNat i.toNat

theorem breaksOff_members {e : Entry} {ms : Members} (h : e.value = .object ms) :
    form.BreaksOff ms := by
  obtain ⟨name, kind, variant, sha256, size⟩ := e
  obtain rfl := Value.object.inj h
  rintro m hm field draft hfield
  have hoptional (v : Int64) : BreaksOff (optionalValue variantReader) (.integer v.toInt) :=
    (breaksOff_variant v).optional fun _ => head_signed v.toInt
  cases variant <;>
    simp only [variantMember, List.append_nil, List.cons_append, List.nil_append, List.mem_cons,
      List.not_mem_nil, or_false] at hm
  · rcases hm with rfl | rfl | rfl | rfl <;> obtain rfl := Option.some.inj hfield
    · exact BreaksOff.field (breaksOff_text name)
    · exact BreaksOff.field (Json.breaksOff_variant kinds kind.name)
    · exact BreaksOff.field (breaksOff_text sha256)
    · exact BreaksOff.field (breaksOff_size size)
  · rcases hm with rfl | rfl | rfl | rfl | rfl <;> obtain rfl := Option.some.inj hfield
    · exact BreaksOff.field (breaksOff_text name)
    · exact BreaksOff.field (Json.breaksOff_variant kinds kind.name)
    · exact BreaksOff.field (hoptional _)
    · exact BreaksOff.field (breaksOff_text sha256)
    · exact BreaksOff.field (breaksOff_size size)

theorem breaksOff (e : Entry) : BreaksOff form.reader e.value := by
  obtain ⟨ms, last, hvalue, hfills, -⟩ := e.fills
  rw [hvalue]
  exact hfills.breaksOff (breaksOff_members hvalue)

end Entry

/-! ### Indexes -/

namespace Index

theorem breaksOff_version (n : UInt32) : BreaksOff versionReader (.integer n.toNat) := by
  have hlt : n.toNat < 0x100000000 := n.toNat_lt
  exact (breaksOff_whole "u32" (by omega) (by omega) (by omega)).map fun i => UInt32.ofNat i.toNat

theorem breaksOff_members {index : Index} {ms : Members} (h : index.value = .object ms) :
    form.BreaksOff ms := by
  obtain ⟨version, runId, generated, profile, artifacts⟩ := index
  obtain rfl := Value.object.inj h
  rintro m hm field draft hfield
  simp only [List.mem_cons, List.not_mem_nil, or_false] at hm
  have hentries : BreaksOff (listValue Entry.form.reader) (.array (artifacts.map Entry.value)) :=
    breaksOff_list fun e _ => ⟨e.readsBack, e.breaksOff⟩
  rcases hm with rfl | rfl | rfl | rfl | rfl <;> obtain rfl := Option.some.inj hfield
  · exact BreaksOff.field (breaksOff_version version)
  · exact BreaksOff.field (breaksOff_text runId)
  · exact BreaksOff.field (breaksOff_text generated)
  · exact BreaksOff.field (breaksOff_text profile)
  · exact hentries.field

variable {text : String}

/-- Whatever is left of an index's text, if it is not all of it, is refused because the text ends. -/
theorem truncated_index_is_refused {index : Index} (hbegins : text.toList <+: index.text.toList)
    (hne : text ≠ index.text) : ∃ error, parse text = .error error ∧ error.category = .ended := by
  have htext : index.text.toList = prettyText 0 index.value := String.toList_ofList
  obtain ⟨ms, last, hvalue, hfills, -⟩ := index.fills
  rcases cut_or_eq_of_prefix hbegins with hcut | hwhole
  · rw [htext] at hcut
    have hopen : Cut text.toList (prettyText 0 index.value ++ []) := by rwa [List.append_nil]
    rw [hvalue] at hcut
    have hfront : skipBlanks text.toList = text.toList := by
      rcases index.readsBack.cut_front hopen with hnil | ⟨c, q, hq, hc⟩
      · rw [hnil]
        rfl
      · rw [hq, skipBlanks_cons hc.1]
    exact readAll_ended (hfills.cut (breaksOff_members hvalue) hcut hfront)
  · exact absurd (String.toList_inj.mp hwhole) hne

/-- An index whose first number has two digits. -/
def laterIndex : Index := ⟨12, "r", "t", "debug", [⟨"a", .library, some (-1), "", 345⟩]⟩

/-- The text of the index, broken off between the digits. -/
def laterRemains : String := "\x7b\n  \"index_version\": 1"

theorem shortened_version_is_refused :
    laterRemains.toList <+: laterIndex.text.toList ∧ laterRemains ≠ laterIndex.text ∧
      ∃ error, parse laterRemains = .error error ∧ error.category = .ended := by
  have htext : laterIndex.text.toList = prettyText 0 laterIndex.value := String.toList_ofList
  have hbegins : laterRemains.toList <+: laterIndex.text.toList := by
    rw [htext]
    decide +kernel
  have hne : laterRemains ≠ laterIndex.text := by decide +kernel
  exact ⟨hbegins, hne, truncated_index_is_refused hbegins hne⟩

end Index
end LoaderBench.Artifact
