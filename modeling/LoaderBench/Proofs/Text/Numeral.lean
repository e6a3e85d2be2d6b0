import LoaderBench.Proofs.Outcome
import LoaderBench.Proofs.Text.Decimal
import LoaderBench.Text.Numeral

/-!
# Which texts are numerals

A numeral is a sign, or none, and decimal digits after it. Reading gives the number of a numeral that is
in the range, and fails on every other text. Reading after a minus sign mirrors reading without one.
-/

namespace LoaderBench.Text

variable {cs ds : List Char} {low high value i : Int} {n : Nat}

/-- One decimal digit at least, and nothing else. -/
def Digits (ds : List Char) : Prop := ds ≠ [] ∧ ∀ c ∈ ds, c.isDigit = true

theorem all_isDigit_iff : ds ≠ [] ∧ ds.all Char.isDigit = true ↔ Digits ds :=
  and_congr_right fun _ => List.all_eq_true

instance (ds : List Char) : Decidable (Digits ds) := decidable_of_decidable_of_iff all_isDigit_iff

theorem digits_digits (n : Nat) : Digits (digits n) :=
  ⟨digits_ne_nil n, fun _ hc => isDigit_of_mem_digits hc⟩

theorem Digits.cons (h : Digits ds) : ∃ c cs, ds = c :: cs ∧ c.isDigit = true := by
  obtain ⟨c, cs, rfl⟩ := List.exists_cons_of_ne_nil h.1
  exact ⟨c, cs, rfl, h.2 c List.mem_cons_self⟩

/-- Whether a text is a numeral of a number. -/
inductive IsNumeral : List Char → Int → Prop where
  | bare {ds : List Char} : Digits ds → IsNumeral ds (Nat.ofDigitChars 10 ds 0)
  | plus {ds : List Char} : Digits ds → IsNumeral ('+' :: ds) (Nat.ofDigitChars 10 ds 0)
  | minus {ds : List Char} : Digits ds → IsNumeral ('-' :: ds) (-Nat.ofDigitChars 10 ds 0)

/-! ### Reading digits -/

theorem readUp_ok_iff (hn : (n : Int) ≤ high) : readUp high n cs = .ok i ↔
    (∀ c ∈ cs, c.isDigit = true) ∧ (Nat.ofDigitChars 10 cs n : Int) ≤ high ∧
      (Nat.ofDigitChars 10 cs n : Int) = i := by
  induction cs generalizing n with
  | nil =>
    have hread : readUp high n [] = .ok i ↔ (n : Int) = i := by
      rw [readUp, Except.ok.injEq]
    rw [hread]
    exact ⟨fun h => ⟨nofun, hn, h⟩, fun h => h.2.2⟩
  | cons c cs ih =>
    have hnext : (n : Int) * 10 + digitValue c = (10 * n + digitValue c : Nat) := by omega
    have hvalue : Nat.ofDigitChars 10 (c :: cs) n = Nat.ofDigitChars 10 cs (10 * n + digitValue c) :=
      Nat.ofDigitChars_cons
    rw [readUp, hnext, hvalue, List.forall_mem_cons]
    by_cases hdigit : c.isDigit = true
    · rw [if_pos hdigit]
      by_cases hfits : ((10 * n + digitValue c : Nat) : Int) ≤ high
      · simp only [if_pos hfits, ih hfits, hdigit, true_and]
      · have hlarge := le_ofDigitChars cs (10 * n + digitValue c)
        simp only [if_neg hfits]
        refine iff_of_false nofun ?_
        rintro ⟨-, hle, -⟩
        omega
    · rw [if_neg hdigit]
      exact iff_of_false nofun fun h => hdigit h.1.1

/-- What is told after a minus sign where the mirrored reading fails. -/
def NumeralError.mirrored : NumeralError → NumeralError
  | .tooLarge => .tooSmall
  | e => e

theorem readDown_neg (low value : Int) (cs : List Char) :
    readDown low (-value) cs =
      ((readUp (-low) value cs).map fun i => -i).mapError NumeralError.mirrored := by
  induction cs generalizing value with
  | nil => rfl
  | cons c cs ih =>
    have hnext : -value * 10 - digitValue c = -(value * 10 + digitValue c) := by omega
    have hfits : low ≤ -(value * 10 + digitValue c) ↔ value * 10 + digitValue c ≤ -low := by omega
    simp only [readDown, readUp, hnext, hfits, ih]
    split
    · split
      · rfl
      · rfl
    · rfl

theorem readDown_ok_iff (hn : low ≤ -(n : Int)) : readDown low (-n) cs = .ok i ↔
    (∀ c ∈ cs, c.isDigit = true) ∧ low ≤ -(Nat.ofDigitChars 10 cs n : Int) ∧
      -(Nat.ofDigitChars 10 cs n : Int) = i := by
  have hn' : (n : Int) ≤ -low := by omega
  rw [readDown_neg, mapError_eq_ok_iff, map_eq_ok_iff]
  constructor
  · rintro ⟨j, hj, rfl⟩
    obtain ⟨hdigits, hle, rfl⟩ := (readUp_ok_iff hn').mp hj
    exact ⟨hdigits, by omega, rfl⟩
  · rintro ⟨hdigits, hle, rfl⟩
    exact ⟨_, (readUp_ok_iff hn').mpr ⟨hdigits, by omega, rfl⟩, rfl⟩

/-! ### Signs -/

theorem isNumeral_plus_iff :
    IsNumeral ('+' :: ds) i ↔ Digits ds ∧ (Nat.ofDigitChars 10 ds 0 : Int) = i := by
  constructor
  · intro h
    cases h with
    | bare h => exact absurd (h.2 '+' List.mem_cons_self) (by decide)
    | plus h => exact ⟨h, rfl⟩
  · rintro ⟨h, rfl⟩
    exact .plus h

theorem isNumeral_minus_iff :
    IsNumeral ('-' :: ds) i ↔ Digits ds ∧ -(Nat.ofDigitChars 10 ds 0 : Int) = i := by
  constructor
  · intro h
    cases h with
    | bare h => exact absurd (h.2 '-' List.mem_cons_self) (by decide)
    | minus h => exact ⟨h, rfl⟩
  · rintro ⟨h, rfl⟩
    exact .minus h

theorem isNumeral_bare_iff (hplus : cs.head? ≠ some '+') (hminus : cs.head? ≠ some '-') :
    IsNumeral cs i ↔ Digits cs ∧ (Nat.ofDigitChars 10 cs 0 : Int) = i := by
  constructor
  · intro h
    cases h with
    | bare h => exact ⟨h, rfl⟩
    | plus h => exact absurd rfl hplus
    | minus h => exact absurd rfl hminus
  · rintro ⟨h, rfl⟩
    exact .bare h

theorem not_digits_nil : ¬ Digits [] := fun h => h.1 rfl

theorem readUp_numeral_iff (hlow : low ≤ 0) (hhigh : 0 ≤ high) (hne : ds ≠ []) :
    readUp high 0 ds = .ok i ↔
      (Digits ds ∧ (Nat.ofDigitChars 10 ds 0 : Int) = i) ∧ low ≤ i ∧ i ≤ high := by
  have hread : readUp high 0 ds = .ok i ↔ _ := readUp_ok_iff (n := 0) hhigh
  rw [hread]
  constructor
  · rintro ⟨hdigits, hle, rfl⟩
    exact ⟨⟨⟨hne, hdigits⟩, rfl⟩, by omega, hle⟩
  · rintro ⟨⟨hdigits, rfl⟩, -, hle⟩
    exact ⟨hdigits.2, hle, rfl⟩

theorem readDown_numeral_iff (hlow : low ≤ 0) (hhigh : 0 ≤ high) (hne : ds ≠ []) :
    readDown low 0 ds = .ok i ↔
      (Digits ds ∧ -(Nat.ofDigitChars 10 ds 0 : Int) = i) ∧ low ≤ i ∧ i ≤ high := by
  have hread : readDown low 0 ds = .ok i ↔ _ := readDown_ok_iff (n := 0) hlow
  rw [hread]
  constructor
  · rintro ⟨hdigits, hle, rfl⟩
    exact ⟨⟨⟨hne, hdigits⟩, rfl⟩, hle, by omega⟩
  · rintro ⟨⟨hdigits, rfl⟩, hle, -⟩
    exact ⟨hdigits.2, hle, rfl⟩

theorem readNumeral_bare (low high : Int) (hplus : cs.head? ≠ some '+')
    (hminus : cs.head? ≠ some '-') (hne : cs ≠ []) :
    readNumeral low high cs = readUp high 0 cs := by
  unfold readNumeral
  split
  · exact absurd rfl hne
  · exact absurd rfl hplus
  · exact absurd rfl hminus
  · exact absurd rfl hplus
  · exact absurd rfl hminus
  · rfl

/-- A text is read as a number if it is a numeral of this number, and the number is in the range. -/
theorem readNumeral_ok_iff (hlow : low ≤ 0) (hhigh : 0 ≤ high) :
    readNumeral low high cs = .ok i ↔ IsNumeral cs i ∧ low ≤ i ∧ i ≤ high := by
  by_cases hplus : cs.head? = some '+'
  · obtain ⟨ds, rfl⟩ := List.head?_eq_some_iff.mp hplus
    rw [isNumeral_plus_iff]
    cases ds with
    | nil => exact iff_of_false nofun fun h => not_digits_nil h.1.1
    | cons d ds => exact readUp_numeral_iff hlow hhigh (List.cons_ne_nil d ds)
  by_cases hminus : cs.head? = some '-'
  · obtain ⟨ds, rfl⟩ := List.head?_eq_some_iff.mp hminus
    rw [isNumeral_minus_iff]
    cases ds with
    | nil => exact iff_of_false nofun fun h => not_digits_nil h.1.1
    | cons d ds => exact readDown_numeral_iff hlow hhigh (List.cons_ne_nil d ds)
  rw [isNumeral_bare_iff hplus hminus]
  by_cases hne : cs = []
  · rw [hne]
    exact iff_of_false nofun fun h => not_digits_nil h.1.1
  · rw [readNumeral_bare low high hplus hminus hne]
    exact readUp_numeral_iff hlow hhigh hne

end LoaderBench.Text
