import LoaderBench.Proofs.Text.Numeral

/-!
# Why a text is refused as a numeral

After its sign a text is read digit by digit. If digits come to stand for a number out of the range, it
is refused for that, whatever follows them. A text whose digits all stay in the range is refused only
because it is no numeral: something else stands among the digits, or there are none.
-/

namespace LoaderBench.Text

variable {cs ds : List Char} {low high value i : Int} {n : Nat} {e : NumeralError}

/-! ### After the sign -/

/-- The digits that a text begins with, up to the first character that is none. -/
def leading (cs : List Char) : List Char := cs.takeWhile Char.isDigit

theorem leading_of_digits (h : ∀ c ∈ cs, c.isDigit = true) : leading cs = cs := takeWhile_all h

theorem readUp_tooLarge_iff (hn : (n : Int) ≤ high) : readUp high n cs = .error .tooLarge ↔
    ∃ p, p <+: leading cs ∧ high < (Nat.ofDigitChars 10 p n : Int) := by
  induction cs generalizing n with
  | nil =>
    refine iff_of_false (fun h => error_ne_ok h.symm) ?_
    rintro ⟨p, hp, hlarge⟩
    rw [List.prefix_nil.mp hp, Nat.ofDigitChars_nil] at hlarge
    omega
  | cons c cs ih =>
    have hnext : (n : Int) * 10 + digitValue c = (10 * n + digitValue c : Nat) := by omega
    have hvalue (q : List Char) :
        Nat.ofDigitChars 10 (c :: q) n = Nat.ofDigitChars 10 q (10 * n + digitValue c) :=
      Nat.ofDigitChars_cons
    rw [readUp, hnext]
    by_cases hdigit : c.isDigit = true
    · have hleading : leading (c :: cs) = c :: leading cs := List.takeWhile_cons_of_pos hdigit
      rw [if_pos hdigit, hleading]
      by_cases hfits : ((10 * n + digitValue c : Nat) : Int) ≤ high
      · simp only [if_pos hfits, ih hfits]
        constructor
        · rintro ⟨q, hq, hlarge⟩
          exact ⟨c :: q, List.cons_prefix_cons.mpr ⟨rfl, hq⟩, by rwa [hvalue]⟩
        · rintro ⟨p, hp, hlarge⟩
          rcases List.prefix_cons_iff.mp hp with rfl | ⟨q, rfl, hq⟩
          · rw [Nat.ofDigitChars_nil] at hlarge
            omega
          · exact ⟨q, hq, by rwa [hvalue] at hlarge⟩
      · simp only [if_neg hfits, true_iff]
        refine ⟨[c], List.cons_prefix_cons.mpr ⟨rfl, List.nil_prefix⟩, ?_⟩
        rw [hvalue, Nat.ofDigitChars_nil]
        omega
    · have hleading : leading (c :: cs) = [] := List.takeWhile_cons_of_neg hdigit
      rw [if_neg hdigit, hleading]
      have hother : NumeralError.invalidDigit ≠ .tooLarge := by decide
      refine iff_of_false (fun h => hother (Except.error.inj h)) ?_
      rintro ⟨p, hp, hlarge⟩
      rw [List.prefix_nil.mp hp, Nat.ofDigitChars_nil] at hlarge
      omega

theorem readUp_error (h : readUp high value cs = .error e) : e = .tooLarge ∨ e = .invalidDigit := by
  induction cs generalizing value with
  | nil => cases h
  | cons c cs ih =>
    rw [readUp] at h
    split at h
    · dsimp only at h
      split at h
      · exact ih h
      · exact .inl (Except.error.inj h).symm
    · exact .inr (Except.error.inj h).symm

theorem readDown_error (h : readDown low (-value) cs = .error e) :
    e = .tooSmall ∨ e = .invalidDigit := by
  rw [readDown_neg, mapError_eq_error_iff] at h
  obtain ⟨e', he', rfl⟩ := h
  rcases readUp_error (map_eq_error_iff.mp he') with rfl | rfl
  · exact .inl rfl
  · exact .inr rfl

theorem readDown_tooSmall_iff (hn : low ≤ -(n : Int)) : readDown low (-n) cs = .error .tooSmall ↔
    ∃ p, p <+: leading cs ∧ -(Nat.ofDigitChars 10 p n : Int) < low := by
  have hlarge : readUp (-low) n cs = .error .tooLarge ↔ _ := readUp_tooLarge_iff (by omega)
  have hmirrored : readDown low (-n) cs = .error .tooSmall ↔
      readUp (-low) n cs = .error .tooLarge := by
    rw [readDown_neg, mapError_eq_error_iff]
    constructor
    · rintro ⟨e, he, hmirror⟩
      have hread := map_eq_error_iff.mp he
      rcases readUp_error hread with rfl | rfl
      · exact hread
      · cases hmirror
    · intro hread
      exact ⟨.tooLarge, map_eq_error_iff.mpr hread, rfl⟩
  rw [hmirrored, hlarge]
  refine exists_congr fun p => and_congr_right fun _ => ?_
  omega

/-! ### Signs -/

/-- The text after its sign, if it has one. -/
def unsigned : List Char → List Char
  | '+' :: cs => cs
  | '-' :: cs => cs
  | cs => cs

/-- The number that digits stand for after the sign of a text. -/
def valueIn (cs ds : List Char) : Int :=
  if cs.head? = some '-' then -Nat.ofDigitChars 10 ds 0 else Nat.ofDigitChars 10 ds 0

/-- Whether some first digits after the sign stand for a number out of the range. -/
def Overflows (low high : Int) (cs : List Char) : Prop :=
  ∃ p, p <+: leading (unsigned cs) ∧ ¬ (low ≤ valueIn cs p ∧ valueIn cs p ≤ high)

theorem valueIn_minus (ds p : List Char) : valueIn ('-' :: ds) p = -Nat.ofDigitChars 10 p 0 :=
  if_pos rfl

theorem valueIn_of_ne (hminus : cs.head? ≠ some '-') (p : List Char) :
    valueIn cs p = Nat.ofDigitChars 10 p 0 := if_neg hminus

theorem unsigned_bare (hplus : cs.head? ≠ some '+') (hminus : cs.head? ≠ some '-') :
    unsigned cs = cs := by
  unfold unsigned
  split
  · exact absurd rfl hplus
  · exact absurd rfl hminus
  · rfl

theorem not_overflows_of_unsigned (hlow : low ≤ 0) (hhigh : 0 ≤ high) (h : unsigned cs = []) :
    ¬ Overflows low high cs := by
  rintro ⟨p, hp, hout⟩
  rw [h] at hp
  rw [List.prefix_nil.mp hp] at hout
  simp [valueIn, hlow, hhigh] at hout

theorem overflows_up_iff (hlow : low ≤ 0) (hminus : cs.head? ≠ some '-') :
    Overflows low high cs ↔
      ∃ p, p <+: leading (unsigned cs) ∧ high < (Nat.ofDigitChars 10 p 0 : Int) := by
  refine exists_congr fun p => and_congr_right fun _ => ?_
  rw [valueIn_of_ne hminus]
  omega

theorem overflows_down_iff (hhigh : 0 ≤ high) : Overflows low high ('-' :: ds) ↔
    ∃ p, p <+: leading ds ∧ -(Nat.ofDigitChars 10 p 0 : Int) < low := by
  refine exists_congr fun p => and_congr_right fun _ => ?_
  rw [valueIn_minus]
  omega

/-- A numeral is the sign of a text and digits after it. -/
theorem isNumeral_iff : IsNumeral cs i ↔ Digits (unsigned cs) ∧ valueIn cs (unsigned cs) = i := by
  by_cases hplus : cs.head? = some '+'
  · obtain ⟨ds, rfl⟩ := List.head?_eq_some_iff.mp hplus
    exact isNumeral_plus_iff
  by_cases hminus : cs.head? = some '-'
  · obtain ⟨ds, rfl⟩ := List.head?_eq_some_iff.mp hminus
    exact isNumeral_minus_iff
  rw [isNumeral_bare_iff hplus hminus, unsigned_bare hplus hminus, valueIn_of_ne hminus]

theorem readNumeral_up (hminus : cs.head? ≠ some '-') (hne : unsigned cs ≠ []) :
    readNumeral low high cs = readUp high 0 (unsigned cs) := by
  by_cases hplus : cs.head? = some '+'
  · obtain ⟨ds, rfl⟩ := List.head?_eq_some_iff.mp hplus
    cases ds with
    | nil => exact absurd rfl hne
    | cons d ds => rfl
  · rw [unsigned_bare hplus hminus] at hne ⊢
    exact readNumeral_bare low high hplus hminus hne

theorem readNumeral_down (hne : ds ≠ []) : readNumeral low high ('-' :: ds) = readDown low 0 ds := by
  cases ds with
  | nil => exact absurd rfl hne
  | cons d ds => rfl

theorem readNumeral_sign (hne : cs ≠ []) (h : unsigned cs = []) :
    readNumeral low high cs = .error .invalidDigit := by
  by_cases hplus : cs.head? = some '+'
  · obtain ⟨ds, rfl⟩ := List.head?_eq_some_iff.mp hplus
    cases h
    rfl
  by_cases hminus : cs.head? = some '-'
  · obtain ⟨ds, rfl⟩ := List.head?_eq_some_iff.mp hminus
    cases h
    rfl
  rw [unsigned_bare hplus hminus] at h
  exact absurd h hne

/-! ### Refusals -/

theorem IsNumeral.overflows (h : IsNumeral cs i) (hi : ¬ (low ≤ i ∧ i ≤ high)) :
    Overflows low high cs := by
  obtain ⟨hdigits, rfl⟩ := isNumeral_iff.mp h
  refine ⟨unsigned cs, ⟨[], ?_⟩, hi⟩
  rw [List.append_nil, leading_of_digits hdigits.2]

theorem readNumeral_error (hne : cs ≠ []) (h : readNumeral low high cs = .error e) :
    e = .invalidDigit ∨ e = if cs.head? = some '-' then .tooSmall else .tooLarge := by
  by_cases hnone : unsigned cs = []
  · rw [readNumeral_sign hne hnone] at h
    exact .inl (Except.error.inj h).symm
  by_cases hminus : cs.head? = some '-'
  · obtain ⟨ds, rfl⟩ := List.head?_eq_some_iff.mp hminus
    have hsome : ds ≠ [] := hnone
    have hread : readDown low (-0) ds = .error e := readNumeral_down hsome ▸ h
    rw [if_pos hminus]
    exact (readDown_error hread).symm
  · rw [readNumeral_up hminus hnone] at h
    rw [if_neg hminus]
    exact (readUp_error h).symm

section

variable (hlow : low ≤ 0) (hhigh : 0 ≤ high)

include hlow hhigh

/-- A text is refused for its size exactly if its first digits lead out of the range, with an error that
tells the sign. -/
theorem readNumeral_overflow_iff : Overflows low high cs ↔
    readNumeral low high cs = .error (if cs.head? = some '-' then .tooSmall else .tooLarge) := by
  by_cases hnone : unsigned cs = []
  · refine iff_of_false (not_overflows_of_unsigned hlow hhigh hnone) fun hread => ?_
    by_cases hne : cs = []
    · subst hne
      cases hread
    · rw [readNumeral_sign hne hnone] at hread
      split at hread
      · cases hread
      · cases hread
  by_cases hminus : cs.head? = some '-'
  · obtain ⟨ds, rfl⟩ := List.head?_eq_some_iff.mp hminus
    have hsome : ds ≠ [] := hnone
    have hread : readDown low 0 ds = .error .tooSmall ↔ _ := readDown_tooSmall_iff (n := 0) hlow
    rw [if_pos hminus, readNumeral_down hsome, hread, overflows_down_iff hhigh]
  · have hread : readUp high 0 (unsigned cs) = .error .tooLarge ↔ _ :=
      readUp_tooLarge_iff (n := 0) hhigh
    rw [if_neg hminus, readNumeral_up hminus hnone, hread, overflows_up_iff hlow hminus]

/-- A text with something in it is refused for a character exactly if it is no numeral and its first
digits stay in the range. -/
theorem readNumeral_invalid_iff (hne : cs ≠ []) :
    readNumeral low high cs = .error .invalidDigit ↔
      (∀ i, ¬ IsNumeral cs i) ∧ ¬ Overflows low high cs := by
  have hoverflow : Overflows low high cs ↔ _ := readNumeral_overflow_iff hlow hhigh
  constructor
  · intro hread
    have hfits : ¬ Overflows low high cs := by
      rw [hoverflow, hread]
      split
      · exact nofun
      · exact nofun
    refine ⟨fun i hnumeral => ?_, hfits⟩
    by_cases hi : low ≤ i ∧ i ≤ high
    · rw [(readNumeral_ok_iff hlow hhigh).mpr ⟨hnumeral, hi⟩] at hread
      cases hread
    · exact hfits (hnumeral.overflows hi)
  · rintro ⟨hnone, hfits⟩
    cases hread : readNumeral low high cs with
    | ok i => exact absurd ((readNumeral_ok_iff hlow hhigh).mp hread).1 (hnone i)
    | error e =>
      rcases readNumeral_error hne hread with rfl | rfl
      · rfl
      · exact absurd (hoverflow.mpr hread) hfits

end

end LoaderBench.Text
