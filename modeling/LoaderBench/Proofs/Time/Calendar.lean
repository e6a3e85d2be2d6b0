import LoaderBench.Time.Calendar
import Mathlib.Logic.Function.Iterate
import Mathlib.Tactic.IntervalCases

/-!
# The calendar counts days

The closed form gives the date that single steps lead to. Along the steps a date is kept in coordinates
for which the closed form is made: a year that begins with March, a month of this year, and a day of
this month. A year then ends with February, whose length alone depends on the year, so that the days
before a month are the same in all years.
-/

namespace LoaderBench.Time.Date

attribute [ext] Date

variable {n y m k d : Nat}

/-! ### Years and months from March on -/

/-- Days before a year, counted from year zero, years beginning with March. -/
def yearStart (y : Nat) : Nat := 365 * y + y / 4 - y / 100 + y / 400

/-- Days before a month of a year that begins with March. -/
def monthStart (m : Nat) : Nat := (153 * m + 2) / 5

/-- The number of a month, counted from March on, in the calendar. -/
def monthOf (m : Nat) : Nat := if m < 10 then m + 3 else m - 9

/-- The year of a month in the calendar: January and February are those of the next year. -/
def yearOf (y m : Nat) : Nat := y + if monthOf m ≤ 2 then 1 else 0

/-- The length of a month in a year that begins with March. -/
def lengthOf (y m : Nat) : Nat := monthLength (yearOf y m) (monthOf m)

theorem lengthOf_bounds (y m : Nat) : 28 ≤ lengthOf y m ∧ lengthOf y m ≤ 31 := by
  unfold lengthOf monthLength
  split_ifs <;> omega

theorem monthOf_bounds (hm : m < 12) : 1 ≤ monthOf m ∧ monthOf m ≤ 12 := by
  unfold monthOf
  split <;> omega

theorem monthStart_succ (y : Nat) (hm : m < 11) : monthStart (m + 1) = monthStart m + lengthOf y m := by
  interval_cases m
  all_goals rfl

theorem isLeap_iff (year : Nat) :
    isLeap year = true ↔ year % 4 = 0 ∧ (year % 100 ≠ 0 ∨ year % 400 = 0) := by
  simp [isLeap]

theorem succ_div (y b : Nat) : (y + 1) / b = y / b + if (y + 1) % b = 0 then 1 else 0 := by
  rw [Nat.succ_div]
  simp only [Nat.dvd_iff_mod_eq_zero]

/-- The day after the last of February begins the next year. -/
theorem yearStart_succ (y : Nat) : yearStart (y + 1) = yearStart y + monthStart 11 + lengthOf y 11 := by
  have hfebruary : lengthOf y 11 = if isLeap (y + 1) = true then 29 else 28 := rfl
  have hstart : monthStart 11 = 337 := rfl
  have hcentury : (y + 1) % 100 = 0 → (y + 1) % 4 = 0 := by omega
  have hera : (y + 1) % 400 = 0 → (y + 1) % 100 = 0 := by omega
  have hle : y / 100 ≤ y / 4 := by omega
  rw [hfebruary, hstart]
  simp only [yearStart, succ_div y, isLeap_iff]
  generalize (y + 1) % 4 = r₄ at *
  generalize (y + 1) % 100 = r₁₀₀ at *
  generalize (y + 1) % 400 = r₄₀₀ at *
  split_ifs <;> omega

/-- A day of the count in coordinates: year and month from March on, and the day, counted from zero. -/
structure At (s y m k : Nat) : Prop where
  count : s = yearStart y + monthStart m + k
  month : m < 12
  day : k < lengthOf y m

theorem At.lt_yearStart_succ {s : Nat} (h : At s y m k) : s < yearStart (y + 1) := by
  obtain ⟨hcount, hmonth, hday⟩ := h
  have hlast : monthStart m + lengthOf y m ≤ monthStart 11 + lengthOf y 11 := by
    by_cases h11 : m = 11
    · subst h11
      exact Nat.le_refl _
    · rw [← monthStart_succ y (by omega)]
      unfold monthStart
      omega
  rw [yearStart_succ]
  omega

/-! ### One day on -/

/-- The date at coordinates. -/
def named (y m k : Nat) : Date := ⟨yearOf y m, monthOf m, k + 1⟩

theorem next_named (hday : k + 1 < lengthOf y m) : (named y m k).next = named y m (k + 1) :=
  if_pos hday

theorem next_named_last (hday : k + 1 = lengthOf y m) : (named y m k).next =
    if monthOf m < 12 then ⟨yearOf y m, monthOf m + 1, 1⟩ else ⟨yearOf y m + 1, 1, 1⟩ := by
  have hlast : ¬ k + 1 < lengthOf y m := by omega
  exact if_neg hlast

theorem named_succ_month (hm : m < 11) : named y (m + 1) 0 =
    if monthOf m < 12 then ⟨yearOf y m, monthOf m + 1, 1⟩ else ⟨yearOf y m + 1, 1, 1⟩ := by
  interval_cases m
  all_goals rfl

/-- A day on, a date has the coordinates of the next day. -/
theorem At.next {s : Nat} (h : At s y m k) :
    ∃ y' m' k', At (s + 1) y' m' k' ∧ (named y m k).next = named y' m' k' := by
  obtain ⟨hcount, hmonth, hday⟩ := h
  by_cases hinner : k + 1 < lengthOf y m
  · exact ⟨y, m, k + 1, ⟨by omega, hmonth, hinner⟩, next_named hinner⟩
  have hlast : k + 1 = lengthOf y m := by omega
  rw [next_named_last hlast]
  by_cases hyear : m < 11
  · have hstart := monthStart_succ y hyear
    have hlength := (lengthOf_bounds y (m + 1)).1
    exact ⟨y, m + 1, 0, ⟨by omega, by omega, by omega⟩, (named_succ_month hyear).symm⟩
  · obtain rfl : m = 11 := by omega
    have hstart := yearStart_succ y
    have hmarch : monthStart 0 = 0 := rfl
    have hlength : lengthOf (y + 1) 0 = 31 := rfl
    exact ⟨y + 1, 0, 0, ⟨by omega, by omega, by omega⟩, rfl⟩

theorem at_epoch : At epochOffset 1969 10 0 := ⟨by decide, by decide, by decide⟩

/-- The date that single steps lead to, in coordinates. -/
theorem at_iterate (n : Nat) :
    ∃ y m k, At (n + epochOffset) y m k ∧ Date.next^[n] epoch = named y m k := by
  induction n with
  | zero =>
    rw [Nat.zero_add]
    exact ⟨1969, 10, 0, at_epoch, rfl⟩
  | succ n ih =>
    obtain ⟨y, m, k, hat, hdate⟩ := ih
    obtain ⟨y', m', k', hat', hnext⟩ := hat.next
    rw [Function.iterate_succ_apply', hdate, hnext, Nat.add_right_comm]
    exact ⟨y', m', k', hat', rfl⟩

/-- Whatever day is counted to, its month is one of a year and its day one of a month. -/
theorem bounds_iterate (n : Nat) :
    (1 ≤ (Date.next^[n] epoch).month ∧ (Date.next^[n] epoch).month ≤ 12) ∧
    1 ≤ (Date.next^[n] epoch).day ∧ (Date.next^[n] epoch).day ≤ 31 := by
  obtain ⟨y, m, k, hat, hdate⟩ := at_iterate n
  rw [hdate]
  exact ⟨monthOf_bounds hat.month, Nat.le_add_left 1 k,
    Nat.le_trans hat.day (lengthOf_bounds y m).2⟩

/-! ### In closed form -/

/-- What a day of an era is divided by 365 to give its year: each year counts 365 days here. -/
def evened (day : Nat) : Nat := day - day / 1460 + day / 36524 - day / 146096

theorem evened_mono {a b : Nat} (h : a ≤ b) : evened a ≤ evened b := by
  induction b, h using Nat.le_induction with
  | base => exact Nat.le_refl _
  | succ b _ ih =>
    refine Nat.le_trans ih ?_
    unfold evened
    omega

theorem yearOfEra_eq (hy : y < 400) (hlow : yearStart y ≤ d) (hhigh : d < yearStart (y + 1)) :
    yearOfEra d = y := by
  have hall : ∀ y < 400, 365 * y ≤ evened (yearStart y) ∧
      evened (yearStart (y + 1) - 1) < 365 * (y + 1) := by decide +kernel
  obtain ⟨hfirst, hlast⟩ := hall y hy
  have hge : evened (yearStart y) ≤ evened d := evened_mono hlow
  have hle : evened d ≤ evened (yearStart (y + 1) - 1) := evened_mono (by omega)
  have hyear : yearOfEra d = evened d / 365 := rfl
  rw [hyear]
  omega

theorem daysBeforeYear_eq (hy : y < 400) : daysBeforeYear y = yearStart y := by
  unfold daysBeforeYear yearStart
  omega

theorem yearStart_era (era y : Nat) : yearStart (400 * era + y) = eraLength * era + yearStart y := by
  unfold yearStart eraLength
  omega

theorem month_eq (hm : m < 12) (hday : k < lengthOf y m) :
    (5 * (monthStart m + k) + 2) / 153 = m := by
  have hnext : monthStart m + k < monthStart (m + 1) := by
    by_cases h11 : m = 11
    · subst h11
      have hfebruary : lengthOf y 11 = if isLeap (y + 1) = true then 29 else 28 := rfl
      have hstart : monthStart (11 + 1) = monthStart 11 + 30 := rfl
      split at hfebruary <;> omega
    · rw [monthStart_succ y (by omega)]
      omega
  unfold monthStart at *
  omega

/-- The place of a day in its era of four hundred years. -/
theorem At.era {s : Nat} (h : At s y m k) : s / eraLength = y / 400 ∧
    s % eraLength = yearStart (y % 400) + (monthStart m + k) ∧
    yearStart (y % 400) + (monthStart m + k) < yearStart (y % 400 + 1) := by
  have hyear : 400 * (y / 400) + y % 400 = y := Nat.div_add_mod y 400
  have hlt : y % 400 < 400 := Nat.mod_lt y (by decide)
  have hstart := yearStart_era (y / 400) (y % 400)
  have hend := yearStart_era (y / 400) (y % 400 + 1)
  rw [← Nat.add_assoc, hyear] at hend
  rw [hyear] at hstart
  have hbefore := h.lt_yearStart_succ
  have hcount := h.count
  have hera : yearStart (y % 400 + 1) ≤ eraLength := by
    unfold yearStart eraLength
    omega
  have hinEra : yearStart (y % 400) + (monthStart m + k) < eraLength := by omega
  have hshifted : s = eraLength * (y / 400) + (yearStart (y % 400) + (monthStart m + k)) := by omega
  refine ⟨?_, ?_, by omega⟩
  · rw [hshifted, Nat.mul_add_div (by decide), Nat.div_eq_of_lt hinEra, Nat.add_zero]
  · rw [hshifted, Nat.mul_add_mod, Nat.mod_eq_of_lt hinEra]

theorem At.yearOfEra {s : Nat} (h : At s y m k) :
    yearOfEra (yearStart (y % 400) + (monthStart m + k)) = y % 400 :=
  yearOfEra_eq (Nat.mod_lt y (by decide)) (Nat.le_add_right _ _) h.era.2.2

/-- The closed form leads back to the coordinates. -/
theorem ofDays_eq_named (h : At (n + epochOffset) y m k) : ofDays n = named y m k := by
  obtain ⟨hera, hday, -⟩ := h.era
  have hyear : y % 400 + y / 400 * 400 = y := by omega
  have hmonth : (if m < 10 then m + 3 else m - 9) = monthOf m := rfl
  have hdayOf : monthStart m + k - (153 * m + 2) / 5 = k :=
    Nat.add_sub_cancel_left (monthStart m) k
  simp only [ofDays, hera, hday, h.yearOfEra, daysBeforeYear_eq (Nat.mod_lt y (by decide)),
    Nat.add_sub_cancel_left, month_eq h.month h.day, hyear, hmonth, hdayOf]
  rfl

theorem ofDays_eq_iterate (n : Nat) : ofDays n = Date.next^[n] epoch := by
  obtain ⟨y, m, k, hat, hdate⟩ := at_iterate n
  rw [hdate, ofDays_eq_named hat]

end LoaderBench.Time.Date
