import LoaderBench.Fixture.Build
import LoaderBench.Proofs.Host.SideChannel
import LoaderBench.Proofs.Text.Ascii
import LoaderBench.Proofs.Text.Blank
import LoaderBench.Proofs.Text.Numeral

/-!
# Which library is built

A setting asks for a variant if it is missing, or is white space only, or is the numeral of a number of
64 bits with white space around. The library that is built then returns the number of this variant. No
library is built for any other text. But a setting that is no text is taken for one that is missing.
-/

namespace LoaderBench.Fixture

open LoaderBench.Host LoaderBench.Loader LoaderBench.Text

variable {text : String} {setting : Option Bytes} {v : Int64} {cs : List Char}

/-! ### Texts -/

theorem isBlank_of_isDigit {c : Char} (h : c.isDigit = true) : isBlank c = false := by
  have hnone : blanks.any Char.isDigit = false := by decide
  refine Bool.eq_false_iff.mpr fun hblank => ?_
  exact List.any_eq_false.mp hnone c (List.contains_iff_mem.mp hblank) h

theorem not_blank_of_isNumeral {i : Int} (h : IsNumeral cs i) : ∀ c ∈ cs, isBlank c = false := by
  cases h with
  | bare hdigits => exact fun c hc => isBlank_of_isDigit (hdigits.2 c hc)
  | plus hdigits =>
    exact List.forall_mem_cons.mpr ⟨by decide, fun c hc => isBlank_of_isDigit (hdigits.2 c hc)⟩
  | minus hdigits =>
    exact List.forall_mem_cons.mpr ⟨by decide, fun c hc => isBlank_of_isDigit (hdigits.2 c hc)⟩

theorem bare_of_isNumeral {i : Int} (h : IsNumeral cs i) : Bare cs :=
  ⟨fun c hc => not_blank_of_isNumeral h c (List.mem_of_mem_head? hc),
    fun c hc => not_blank_of_isNumeral h c (List.mem_of_getLast? hc)⟩

theorem ne_nil_of_isNumeral {i : Int} (h : IsNumeral cs i) : cs ≠ [] := by
  cases h with
  | bare hdigits => exact hdigits.1
  | plus _ => exact List.cons_ne_nil _ _
  | minus _ => exact List.cons_ne_nil _ _

/-- Whether a text asks for a variant. -/
inductive Names : String → Int64 → Prop where
  | default {text : String} : Blank text.toList → Names text defaultVariant
  | numeral {text : String} {before cs after : List Char} {v : Int64} :
      text.toList = before ++ cs ++ after → Blank before → Blank after → IsNumeral cs v.toInt →
      Names text v

theorem names_iff : Names text v ↔ trim text.toList = [] ∧ v = defaultVariant ∨
    IsNumeral (trim text.toList) v.toInt := by
  constructor
  · intro h
    cases h with
    | default hblank => exact .inl ⟨trim_eq_nil_iff.mpr hblank, rfl⟩
    | numeral hparts hbefore hafter hnumeral =>
      have htrim := trim_eq_iff.mpr ⟨bare_of_isNumeral hnumeral, _, _, hparts, hbefore, hafter⟩
      exact .inr (htrim ▸ hnumeral)
  · rintro (⟨htrim, rfl⟩ | hnumeral)
    · exact .default (trim_eq_nil_iff.mp htrim)
    · obtain ⟨before, after, hparts, hbefore, hafter⟩ := trim_parts text.toList
      exact .numeral hparts hbefore hafter hnumeral

theorem readVariant_ok_iff :
    (readNumeral Int64.minValue.toInt Int64.maxValue.toInt cs).map Int64.ofInt = .ok v ↔
      IsNumeral cs v.toInt := by
  have hread {i : Int} : readNumeral Int64.minValue.toInt Int64.maxValue.toInt cs = .ok i ↔
      IsNumeral cs i ∧ Int64.minValue.toInt ≤ i ∧ i ≤ Int64.maxValue.toInt :=
    readNumeral_ok_iff (by decide) (by decide)
  rw [map_eq_ok_iff]
  constructor
  · rintro ⟨i, hi, rfl⟩
    obtain ⟨hnumeral, hlow, hhigh⟩ := hread.mp hi
    rwa [Int64.toInt_ofInt_of_le hlow (Int.lt_of_le_of_lt hhigh (by decide))]
  · intro hnumeral
    exact ⟨v.toInt, hread.mpr ⟨hnumeral, v.minValue_le_toInt, v.toInt_le⟩, Int64.ofInt_toInt v⟩

/-- A text is read as the variant that it asks for, and no other text is read. -/
theorem parseVariant_ok_iff : parseVariant text = .ok v ↔ Names text v := by
  rw [names_iff]
  unfold parseVariant
  split
  · rename_i htrim
    rw [htrim]
    constructor
    · exact fun h => .inl ⟨rfl, (Except.ok.inj h).symm⟩
    · rintro (⟨-, rfl⟩ | hnumeral)
      · rfl
      · exact absurd rfl (ne_nil_of_isNumeral hnumeral)
  · rename_i hne
    rw [readVariant_ok_iff]
    exact ⟨.inr, fun h => h.resolve_left fun hnil => hne hnil.1⟩

/-! ### Settings -/

/-- Whether a setting asks for a variant. -/
inductive Asks : Option Bytes → Int64 → Prop where
  | unset : Asks none defaultVariant
  | named {text : String} {v : Int64} : Names text v → Asks (some (Utf8.encode text)) v

/-- Whether a setting is there, but is no text. -/
def Unreadable (setting : Option Bytes) : Prop :=
  ∃ bytes, setting = some bytes ∧ Utf8.decode? bytes = none

theorem variantOfSetting_none : variantOfSetting none = .ok defaultVariant :=
  ok_of_toOption (by decide)

theorem variantOfSetting_unreadable (h : Unreadable setting) :
    variantOfSetting setting = .ok defaultVariant := by
  obtain ⟨bytes, rfl, hbytes⟩ := h
  have htext : ((some bytes).bind Utf8.decode?).getD "" = "" := by
    rw [Option.bind_some, hbytes, Option.getD_none]
  rw [variantOfSetting, htext]
  exact variantOfSetting_none

theorem variantOfSetting_encode (text : String) :
    variantOfSetting (some (Utf8.encode text)) = parseVariant text := by
  rw [variantOfSetting, Option.bind_some, Utf8.decode?_encode, Option.getD_some]

/-- A setting is missing, or a text, or unreadable. -/
theorem setting_cases (setting : Option Bytes) :
    setting = none ∨ (∃ text, setting = some (Utf8.encode text)) ∨ Unreadable setting := by
  cases setting with
  | none => exact .inl rfl
  | some bytes =>
    cases hbytes : Utf8.decode? bytes with
    | none => exact .inr (.inr ⟨bytes, rfl, hbytes⟩)
    | some text => exact .inr (.inl ⟨text, congrArg some (Utf8.encode_of_decode? hbytes).symm⟩)

theorem not_unreadable_encode (text : String) : ¬ Unreadable (some (Utf8.encode text)) := by
  rintro ⟨bytes, hbytes, hnone⟩
  rw [← Option.some.inj hbytes, Utf8.decode?_encode] at hnone
  cases hnone

theorem Asks.readable (h : Asks setting v) : ¬ Unreadable setting := by
  cases h with
  | unset =>
    rintro ⟨bytes, hbytes, -⟩
    cases hbytes
  | named _ => exact not_unreadable_encode _

theorem Asks.variantOfSetting (h : Asks setting v) : variantOfSetting setting = .ok v := by
  cases h with
  | unset => exact variantOfSetting_none
  | named h => rw [variantOfSetting_encode, parseVariant_ok_iff.mpr h]

theorem asks_of_variantOfSetting (hreadable : ¬ Unreadable setting)
    (h : variantOfSetting setting = .ok v) : Asks setting v := by
  rcases setting_cases setting with rfl | ⟨text, rfl⟩ | hunreadable
  · rw [variantOfSetting_none] at h
    rw [← Except.ok.inj h]
    exact .unset
  · rw [variantOfSetting_encode] at h
    exact .named (parseVariant_ok_iff.mp h)
  · exact absurd hunreadable hreadable

/-! ### Libraries -/

theorem image?_machine (v : Int64) (path : Bytes) :
    (Layout.machine ⟨some (.exporter v), true⟩ path).image? path =
      some ((Built.exporter v).image path) := by
  show List.find? _ [(Built.exporter v).image path] = _
  exact List.find?_cons_of_pos (beq_self_eq_true path)

/-- A host that runs on a built library has the number of its variant. -/
theorem run_exporter (v : Int64) {path : Bytes} (hpath : Nameable path) :
    (run (.fullPath path) (Layout.machine ⟨some (.exporter v), true⟩ path)).1 =
      .ok ⟨idOf v, none⟩ := by
  have himage := image?_machine v path
  have hsymbol : ((Built.exporter v).image path).symbols.lookup fixtureSymbol =
      some (some (idOf v)) := rfl
  obtain ⟨calls, -, hcourse⟩ := course_of_run (.fullPath path)
    (Layout.machine ⟨some (.exporter v), true⟩ path)
  exact (hcourse.unique (.completed _ _ hpath himage hsymbol)).1

/-- For a setting that asks for a variant a library is built that returns the number of this variant.
For a setting that is no text the library of the default is built, and for any other one none. -/
theorem build_follows_setting (setting : Option Bytes) {path : Bytes} (hpath : Nameable path) :
    (∀ v, Asks setting v → build setting = .ok (.exporter v)) ∧
      (Unreadable setting → build setting = .ok (.exporter defaultVariant)) ∧
      (¬ Unreadable setting → (∀ v, ¬ Asks setting v) → ∃ e, build setting = .error e) ∧
      ∀ built, build setting = .ok built → ∃ v, built = .exporter v ∧
        (run (.fullPath path) (Layout.machine ⟨some built, true⟩ path)).1 = .ok ⟨idOf v, none⟩ := by
  refine ⟨fun v hasks => ?_, fun hunreadable => ?_, fun hreadable hnone => ?_, fun built hbuilt => ?_⟩
  · rw [build, hasks.variantOfSetting]
    rfl
  · rw [build, variantOfSetting_unreadable hunreadable]
    rfl
  · cases hvariant : variantOfSetting setting with
    | error e => exact ⟨e, by rw [build, hvariant]; rfl⟩
    | ok v => exact absurd (asks_of_variantOfSetting hreadable hvariant) (hnone v)
  · obtain ⟨v, -, rfl⟩ := map_eq_ok_iff.mp hbuilt
    exact ⟨v, rfl, run_exporter v hpath⟩

/-- A byte that is no text builds the library of the default, as white space does. -/
example : (build (some [0xFF])).toOption = some (.exporter defaultVariant) ∧
    (build (some (Utf8.encode "\t "))).toOption = some (.exporter defaultVariant) ∧
    (build (some (Utf8.encode "\t+002 "))).toOption = some (.exporter 2) ∧
    (build (some (Utf8.encode "two"))).toOption = none := by
  decide

end LoaderBench.Fixture
