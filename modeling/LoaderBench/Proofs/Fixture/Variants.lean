import LoaderBench.Proofs.Fixture.Building
import LoaderBench.Proofs.Text.Overflow

/-!
# Which texts name a variant, and why others do not

A text without its surrounding white space asks for the default if nothing is left, and for the number
of 64 bits that it is a numeral of. If its first digits already lead out of the 64 bits it is refused as
too large, or as too small after a minus sign. All other texts are refused for a character.
-/

namespace LoaderBench.Fixture

open LoaderBench.Text

variable {text : String} {v : Int64}

/-! ### The numeral of a variant -/

theorem isNumeral_signed (i : Int) : IsNumeral (signed i).toList i := by
  rw [toList_signed]
  split
  · have hvalue : -(Nat.ofDigitChars 10 (digits i.natAbs) 0 : Int) = i := by
      rw [ofDigitChars_digits]
      omega
    exact isNumeral_minus_iff.mpr ⟨digits_digits _, hvalue⟩
  · have hvalue : (Nat.ofDigitChars 10 (digits i.natAbs) 0 : Int) = i := by
      rw [ofDigitChars_digits]
      omega
    have hnumeral := IsNumeral.bare (digits_digits i.natAbs)
    rwa [hvalue] at hnumeral

theorem parseVariant_signed {before after : List Char} (hbefore : Blank before)
    (hafter : Blank after) (htext : text.toList = before ++ (signed v.toInt).toList ++ after) :
    parseVariant text = .ok v :=
  parseVariant_ok_iff.mpr (.numeral htext hbefore hafter (isNumeral_signed v.toInt))

/-! ### What is read -/

theorem parseVariant_error_iff {e : NumeralError} : parseVariant text = .error e ↔
    trim text.toList ≠ [] ∧
      readNumeral (-0x8000000000000000) 0x7FFFFFFFFFFFFFFF (trim text.toList) = .error e := by
  unfold parseVariant
  split
  · rename_i hnil
    exact iff_of_false nofun fun h => h.1 hnil
  · rename_i hne
    have hsome : trim text.toList ≠ [] := fun hnil => hne hnil
    rw [map_eq_error_iff]
    exact (and_iff_right hsome).symm

theorem map_toInt_ok_iff {x : Except NumeralError Int64} {i : Int} :
    x.map Int64.toInt = .ok i ↔
      (-0x8000000000000000 ≤ i ∧ i ≤ 0x7FFFFFFFFFFFFFFF) ∧ x = .ok (Int64.ofInt i) := by
  rw [map_eq_ok_iff]
  constructor
  · rintro ⟨v, hv, rfl⟩
    exact ⟨⟨v.minValue_le_toInt, v.toInt_le⟩, by rw [hv, Int64.ofInt_toInt]⟩
  · rintro ⟨⟨hlow, hhigh⟩, hx⟩
    exact ⟨_, hx, Int64.toInt_ofInt_of_le hlow (Int.lt_add_one_of_le hhigh)⟩

theorem parseVariant_toInt_iff {i : Int} : (parseVariant text).map Int64.toInt = .ok i ↔
    trim text.toList = [] ∧ i = 1 ∨
      IsNumeral (trim text.toList) i ∧ -0x8000000000000000 ≤ i ∧ i ≤ 0x7FFFFFFFFFFFFFFF := by
  rw [map_toInt_ok_iff, parseVariant_ok_iff, names_iff]
  constructor
  · rintro ⟨⟨hlow, hhigh⟩, hread⟩
    have hback := Int64.toInt_ofInt_of_le hlow (Int.lt_add_one_of_le hhigh)
    rcases hread with ⟨hnil, hone⟩ | hnumeral
    · rw [hone] at hback
      exact .inl ⟨hnil, hback.symm⟩
    · exact .inr ⟨hback ▸ hnumeral, hlow, hhigh⟩
  · rintro (⟨hnil, rfl⟩ | ⟨hnumeral, hlow, hhigh⟩)
    · exact ⟨by decide, .inl ⟨hnil, rfl⟩⟩
    · refine ⟨⟨hlow, hhigh⟩, .inr ?_⟩
      rwa [Int64.toInt_ofInt_of_le hlow (Int.lt_add_one_of_le hhigh)]

theorem parseVariant_overflow_iff :
    Overflows (-0x8000000000000000) 0x7FFFFFFFFFFFFFFF (trim text.toList) ↔
      parseVariant text =
        .error (if (trim text.toList).head? = some '-' then .tooSmall else .tooLarge) := by
  rw [parseVariant_error_iff, readNumeral_overflow_iff (by decide) (by decide)]
  refine ⟨fun hread => ⟨fun hnil => ?_, hread⟩, And.right⟩
  rw [hnil] at hread
  cases hread

/-- No error is told but one of size, with the sign of the text, or one of a character. -/
theorem parseVariant_error {e : NumeralError} (h : parseVariant text = .error e) :
    e = .invalidDigit ∨
      e = if (trim text.toList).head? = some '-' then .tooSmall else .tooLarge :=
  readNumeral_error (parseVariant_error_iff.mp h).1 (parseVariant_error_iff.mp h).2

theorem parseVariant_tooLarge_iff : parseVariant text = .error .tooLarge ↔
    (trim text.toList).head? ≠ some '-' ∧
      Overflows (-0x8000000000000000) 0x7FFFFFFFFFFFFFFF (trim text.toList) := by
  rw [parseVariant_overflow_iff]
  by_cases hminus : (trim text.toList).head? = some '-'
  · refine iff_of_false (fun h => ?_) fun h => h.1 hminus
    have herror := parseVariant_error h
    simp [hminus] at herror
  · rw [if_neg hminus, and_iff_right hminus]

theorem parseVariant_tooSmall_iff : parseVariant text = .error .tooSmall ↔
    (trim text.toList).head? = some '-' ∧
      Overflows (-0x8000000000000000) 0x7FFFFFFFFFFFFFFF (trim text.toList) := by
  rw [parseVariant_overflow_iff]
  by_cases hminus : (trim text.toList).head? = some '-'
  · rw [if_pos hminus, and_iff_right hminus]
  · refine iff_of_false (fun h => ?_) fun h => hminus h.1
    have herror := parseVariant_error h
    simp [hminus] at herror

theorem parseVariant_invalid_iff : parseVariant text = .error .invalidDigit ↔
    trim text.toList ≠ [] ∧ (∀ i, ¬ IsNumeral (trim text.toList) i) ∧
      ¬ Overflows (-0x8000000000000000) 0x7FFFFFFFFFFFFFFF (trim text.toList) := by
  rw [parseVariant_error_iff]
  exact and_congr_right fun hne => readNumeral_invalid_iff (by decide) (by decide) hne

theorem parseVariant_ne_empty : parseVariant text ≠ .error .empty := by
  intro h
  rcases parseVariant_error h with he | he
  · cases he
  · split at he
    · cases he
    · cases he

/-- What is read of a text, and why it is refused, in terms of what is left of it without the white
space at its ends. -/
theorem parseVariant_grammar (text : String) :
    let t := trim text.toList
    (∃ before after, text.toList = before ++ t ++ after ∧ Blank before ∧ Blank after ∧ Bare t) ∧
      (∀ i, (parseVariant text).map Int64.toInt = .ok i ↔ t = [] ∧ i = 1 ∨
        IsNumeral t i ∧ -0x8000000000000000 ≤ i ∧ i ≤ 0x7FFFFFFFFFFFFFFF) ∧
      (parseVariant text = .error .tooLarge ↔
        t.head? ≠ some '-' ∧ Overflows (-0x8000000000000000) 0x7FFFFFFFFFFFFFFF t) ∧
      (parseVariant text = .error .tooSmall ↔
        t.head? = some '-' ∧ Overflows (-0x8000000000000000) 0x7FFFFFFFFFFFFFFF t) ∧
      (parseVariant text = .error .invalidDigit ↔ t ≠ [] ∧ (∀ i, ¬ IsNumeral t i) ∧
        ¬ Overflows (-0x8000000000000000) 0x7FFFFFFFFFFFFFFF t) ∧
      parseVariant text ≠ .error .empty ∧
      ∀ (v : Int64) (before after : List Char), Blank before → Blank after →
        text.toList = before ++ (signed v.toInt).toList ++ after → parseVariant text = .ok v := by
  intro t
  obtain ⟨before, after, hparts, hbefore, hafter⟩ := trim_parts text.toList
  refine ⟨⟨before, after, hparts, hbefore, hafter, bare_trim _⟩, ?_⟩
  refine ⟨fun i => parseVariant_toInt_iff, parseVariant_tooLarge_iff, parseVariant_tooSmall_iff,
    parseVariant_invalid_iff, parseVariant_ne_empty, ?_⟩
  intro v before after hbefore hafter htext
  exact parseVariant_signed hbefore hafter htext

-- The digits before the first character that is none are out of the range already.
example : parseVariant "-9223372036854775809x" = .error .tooSmall :=
  parseVariant_tooSmall_iff.mpr ⟨by decide, "9223372036854775809".toList, by decide, by decide⟩

end LoaderBench.Fixture
