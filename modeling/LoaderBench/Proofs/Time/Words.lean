import LoaderBench.Proofs.Time.Calendar
import LoaderBench.Time.Words

/-!
# No step of the calendar overflows

Whatever the seconds are, each step of the computation in words fits its word, and the fields are those
of the computation in whole numbers.
-/

namespace LoaderBench.Time

variable {a b n : Nat}

/-- A whole number that is not negative as a signed word. -/
abbrev word (n : Nat) : Int64 := Int64.ofNat n

theorem toInt_word (h : n < 0x8000000000000000) : (word n).toInt = n := Int64.toInt_ofNat_of_lt h

theorem word?_natCast (h : n < 0x8000000000000000) : word? n = some (word n) := by
  have hrange : Int64.minValue.toInt ≤ (n : Int) ∧ (n : Int) ≤ Int64.maxValue.toInt := by
    have hmin : Int64.minValue.toInt = -0x8000000000000000 := by decide
    have hmax : Int64.maxValue.toInt = 0x7FFFFFFFFFFFFFFF := by decide
    omega
  rw [word?, if_pos hrange, Int64.ofInt_eq_ofNat]

theorem add?_word (h : a + b < 0x8000000000000000) :
    add? (word a) (word b) = some (word (a + b)) := by
  rw [add?, toInt_word (by omega), toInt_word (by omega)]
  exact word?_natCast h

theorem sub?_word (ha : a < 0x8000000000000000) (hb : b ≤ a) :
    sub? (word a) (word b) = some (word (a - b)) := by
  rw [sub?, toInt_word ha, toInt_word (by omega), ← Int.natCast_sub hb]
  exact word?_natCast (by omega)

theorem mul?_word (ha : a < 0x8000000000000000) (hb : b < 0x8000000000000000)
    (h : a * b < 0x8000000000000000) : mul? (word a) (word b) = some (word (a * b)) := by
  rw [mul?, toInt_word ha, toInt_word hb]
  exact word?_natCast h

theorem word_ne_zero (hb : b < 0x8000000000000000) (hpos : 0 < b) : word b ≠ 0 := by
  intro h
  have hzero := congrArg Int64.toInt h
  rw [toInt_word hb, Int64.toInt_zero] at hzero
  omega

theorem div?_word (ha : a < 0x8000000000000000) (hb : b < 0x8000000000000000) (hpos : 0 < b) :
    div? (word a) (word b) = some (word (a / b)) := by
  have hle := Nat.div_le_self a b
  rw [div?, if_neg (word_ne_zero hb hpos), toInt_word ha, toInt_word hb, ← Int.ofNat_tdiv]
  exact word?_natCast (by omega)

theorem divEuclid?_word (ha : a < 0x8000000000000000) (hb : b < 0x8000000000000000) (hpos : 0 < b) :
    divEuclid? (word a) (word b) = some (word (a / b)) := by
  have hle := Nat.div_le_self a b
  rw [divEuclid?, if_neg (word_ne_zero hb hpos), toInt_word ha, toInt_word hb]
  exact word?_natCast (by omega)

theorem modEuclid?_word (ha : a < 0x8000000000000000) (hb : b < 0x8000000000000000) (hpos : 0 < b) :
    modEuclid? (word a) (word b) = some (word (a % b)) := by
  have hle := Nat.mod_le a b
  rw [modEuclid?, divEuclid?_word ha hb hpos, toInt_word ha, toInt_word hb, ← Int.natCast_emod]
  exact word?_natCast (by omega)

theorem half?_word (h : n < 0x100000000) : half? (word n) = some (UInt32.ofNat n) := by
  have hword : (word n).toInt = n := toInt_word (by omega)
  rw [half?, hword, Int.toNat_natCast]
  exact if_pos ⟨Int.natCast_nonneg n, by omega⟩

/-! ### Dates -/

theorem yearOfEra?_word (h : n < 0x4000000000000000) :
    yearOfEra? (word n) = some (word (Date.yearOfEra n)) := by
  have hshort : n / 1460 ≤ n := Nat.div_le_self n 1460
  have hlong : n / 146096 ≤ n - n / 1460 + n / 36524 := by omega
  have h1460 : div? (word n) 1460 = some (word (n / 1460)) := div?_word (by omega) (by decide) (by decide)
  have h36524 : div? (word n) 36524 = some (word (n / 36524)) :=
    div?_word (by omega) (by decide) (by decide)
  have h146096 : div? (word n) 146096 = some (word (n / 146096)) :=
    div?_word (by omega) (by decide) (by decide)
  simp only [yearOfEra?, h1460, h36524, h146096, Option.bind_eq_bind, Option.bind_some,
    sub?_word (by omega) hshort, add?_word (a := n - n / 1460) (b := n / 36524) (by omega),
    sub?_word (by omega) hlong]
  exact div?_word (by omega) (by decide) (by decide)

theorem daysBeforeYear?_word (h : n < 0x10000000000000) :
    daysBeforeYear? (word n) = some (word (Date.daysBeforeYear n)) := by
  have h365 : mul? 365 (word n) = some (word (365 * n)) :=
    mul?_word (a := 365) (by decide) (by omega) (by omega)
  have h4 : div? (word n) 4 = some (word (n / 4)) := div?_word (by omega) (by decide) (by decide)
  have h100 : div? (word n) 100 = some (word (n / 100)) := div?_word (by omega) (by decide) (by decide)
  simp only [daysBeforeYear?, h365, h4, h100, Option.bind_eq_bind, Option.bind_some,
    add?_word (a := 365 * n) (b := n / 4) (by omega)]
  exact sub?_word (by omega) (by omega)

theorem daysBeforeMonth?_word (h : n < 0x10000000000000) :
    daysBeforeMonth? (word n) = some (word (Date.monthStart n)) := by
  have h153 : mul? 153 (word n) = some (word (153 * n)) :=
    mul?_word (a := 153) (by decide) (by omega) (by omega)
  have h2 : add? (word (153 * n)) 2 = some (word (153 * n + 2)) := add?_word (b := 2) (by omega)
  simp only [daysBeforeMonth?, h153, h2, Option.bind_eq_bind, Option.bind_some]
  exact div?_word (by omega) (by decide) (by decide)

/-- The fields of a date in words. -/
def Date.words (d : Date) : Int64 × UInt32 × UInt32 := (word d.year, .ofNat d.month, .ofNat d.day)

section

variable {y m k : Nat}

theorem lt_of_at (h : Date.At (n + Date.epochOffset) y m k) (hn : n < 0x1000000000000) :
    y < 0x2000000000000 := by
  have hcount := h.count
  have hoffset : Date.epochOffset = 719468 := rfl
  unfold Date.yearStart at hcount
  omega

theorem monthStart_le (hm : m < 12) : Date.monthStart m ≤ 337 := by
  unfold Date.monthStart
  omega

/-- The era and the day of the era. -/
theorem era_word (h : Date.At (n + Date.epochOffset) y m k) (hn : n < 0x1000000000000) :
    divEuclid? (word (n + Date.epochOffset)) 146097 = some (word (y / 400)) ∧
    modEuclid? (word (n + Date.epochOffset)) 146097 =
      some (word (Date.yearStart (y % 400) + (Date.monthStart m + k))) := by
  obtain ⟨hera, hday, -⟩ := h.era
  have hoffset : Date.epochOffset = 719468 := rfl
  rw [← hera, ← hday]
  exact ⟨divEuclid?_word (by omega) (by decide) (by decide),
    modEuclid?_word (by omega) (by decide) (by decide)⟩

/-- The year of the era, and the days before it. -/
theorem yearOfEra_word (h : Date.At (n + Date.epochOffset) y m k) :
    yearOfEra? (word (Date.yearStart (y % 400) + (Date.monthStart m + k))) =
      some (word (y % 400)) ∧
    daysBeforeYear? (word (y % 400)) = some (word (Date.yearStart (y % 400))) := by
  have hday := h.era.2.1
  have hrest := Nat.mod_lt (n + Date.epochOffset) (y := Date.eraLength) (by decide)
  have hlength : Date.eraLength = 146097 := rfl
  constructor
  · rw [yearOfEra?_word (by omega), h.yearOfEra]
  · rw [daysBeforeYear?_word (by omega), Date.daysBeforeYear_eq (by omega)]

theorem yearAndDay?_word (h : Date.At (n + Date.epochOffset) y m k) (hn : n < 0x1000000000000) :
    yearAndDay? (word n) = some (word y, word (Date.monthStart m + k)) := by
  have hy := lt_of_at h hn
  have hstart := monthStart_le h.month
  have hk := Nat.lt_of_lt_of_le h.day (Date.lengthOf_bounds y m).2
  have hyears : Date.yearStart (y % 400) ≤ 146097 := by
    unfold Date.yearStart
    omega
  obtain ⟨hdiv, hmod⟩ := era_word h hn
  obtain ⟨hyoe, hbefore⟩ := yearOfEra_word h
  have hshifted : add? (word n) 719468 = some (word (n + Date.epochOffset)) := by
    have hoffset : Date.epochOffset = 719468 := rfl
    exact add?_word (b := Date.epochOffset) (by omega)
  have heras : mul? (word (y / 400)) 400 = some (word (y / 400 * 400)) :=
    mul?_word (b := 400) (by omega) (by decide) (by omega)
  have hyear : add? (word (y % 400)) (word (y / 400 * 400)) = some (word y) := by
    rw [add?_word (by omega), Nat.mod_add_div']
  have hdayOfYear : sub? (word (Date.yearStart (y % 400) + (Date.monthStart m + k)))
      (word (Date.yearStart (y % 400))) = some (word (Date.monthStart m + k)) := by
    rw [sub?_word (by omega) (by omega), Nat.add_sub_cancel_left]
  -- With `simp` the kernel would compare the steps by evaluating them.
  rw [yearAndDay?, Option.bind_eq_bind, hshifted, Option.bind_some, hdiv, Option.bind_some, hmod,
    Option.bind_some, hyoe, Option.bind_some, hbefore, Option.bind_some, hdayOfYear, Option.bind_some,
    heras, Option.bind_some, hyear, Option.bind_some]

theorem monthNumber?_word (hm : m < 12) :
    monthNumber? (word m) = some (.ofNat (Date.monthOf m)) := by
  have hall : ∀ m < 12, monthNumber? (word m) = some (.ofNat (Date.monthOf m)) := by decide
  exact hall m hm

theorem monthOf_le_two_iff (hm : m < 12) :
    UInt32.ofNat (Date.monthOf m) ≤ 2 ↔ Date.monthOf m ≤ 2 := by
  have hall : ∀ m < 12, UInt32.ofNat (Date.monthOf m) ≤ 2 ↔ Date.monthOf m ≤ 2 := by decide
  exact hall m hm

/-- The month, counted from March on, of a day of the year. -/
theorem monthFromMarch_word (hm : m < 12) (hday : k < Date.lengthOf y m) :
    mul? 5 (word (Date.monthStart m + k)) = some (word (5 * (Date.monthStart m + k))) ∧
    add? (word (5 * (Date.monthStart m + k))) 2 = some (word (5 * (Date.monthStart m + k) + 2)) ∧
    div? (word (5 * (Date.monthStart m + k) + 2)) 153 = some (word m) := by
  have hstart := monthStart_le hm
  have hk := Nat.lt_of_lt_of_le hday (Date.lengthOf_bounds y m).2
  have hquotient : div? (word (5 * (Date.monthStart m + k) + 2)) 153 =
      some (word ((5 * (Date.monthStart m + k) + 2) / 153)) :=
    div?_word (by omega) (by decide) (by decide)
  rw [Date.month_eq hm hday] at hquotient
  exact ⟨mul?_word (a := 5) (by decide) (by omega) (by omega), add?_word (b := 2) (by omega),
    hquotient⟩

theorem yearOf_word (hy : y < 0x2000000000000) (hm : m < 12) :
    add? (word y) (if UInt32.ofNat (Date.monthOf m) ≤ 2 then 1 else 0) =
      some (word (Date.yearOf y m)) := by
  rw [Date.yearOf]
  by_cases hjanuary : Date.monthOf m ≤ 2
  · rw [if_pos hjanuary, if_pos ((monthOf_le_two_iff hm).mpr hjanuary)]
    exact add?_word (b := 1) (by omega)
  · rw [if_neg hjanuary, if_neg (hjanuary ∘ (monthOf_le_two_iff hm).mp)]
    exact add?_word (b := 0) (by omega)

theorem civil?_word (h : Date.At (n + Date.epochOffset) y m k) (hn : n < 0x1000000000000) :
    civil? (word n) = some (Date.named y m k).words := by
  have hm := h.month
  have hstart := monthStart_le hm
  have hk := Nat.lt_of_lt_of_le h.day (Date.lengthOf_bounds y m).2
  obtain ⟨hfive, htwo, hmonth⟩ := monthFromMarch_word hm h.day
  have hyear := yearOf_word (lt_of_at h hn) hm
  have hbefore := daysBeforeMonth?_word (n := m) (by omega)
  have hday : sub? (word (Date.monthStart m + k)) (word (Date.monthStart m)) = some (word k) := by
    rw [sub?_word (by omega) (by omega), Nat.add_sub_cancel_left]
  have hone : add? (word k) 1 = some (word (k + 1)) := add?_word (b := 1) (by omega)
  have hhalfDay : half? (word (k + 1)) = some (UInt32.ofNat (k + 1)) := half?_word (by omega)
  simp only [civil?, yearAndDay?_word h hn, hfive, htwo, hmonth, hbefore, hday, hone, hhalfDay,
    monthNumber?_word hm, hyear, Option.bind_eq_bind, Option.bind_some]
  rfl

end

/-! ### Moments -/

/-- Fields that tell a date, and the hour, minute and second of a number of seconds of the day. -/
structure Fields.Tells (f : Fields) (date : Date) (rest : Nat) : Prop where
  year : f.year.toInt = date.year
  month : f.month.toNat = date.month
  day : f.day.toNat = date.day
  hour : f.hour.toNat = rest / 3600
  minute : f.minute.toNat = rest % 3600 / 60
  second : f.second.toNat = rest % 60

/-- Up to the last second of the clock the fields are found, and they tell the date that is counted. -/
theorem fields?_tells (seconds : UInt64) : ∃ f, fields? seconds = some f ∧
    f.Tells (Date.next^[seconds.toNat / 86400] Date.epoch) (seconds.toNat % 86400) := by
  have hbound : seconds.toNat < 0x10000000000000000 := seconds.toNat_lt
  have hdays : (seconds / 86400).toNat = seconds.toNat / 86400 := UInt64.toNat_div _ _
  have hrest : (seconds % 86400).toNat = seconds.toNat % 86400 := UInt64.toNat_mod _ _
  obtain ⟨y, m, k, hat, hdate⟩ := Date.at_iterate (seconds.toNat / 86400)
  have hword : word? (seconds.toNat / 86400 : Nat) = some (word (seconds.toNat / 86400)) :=
    word?_natCast (by omega)
  have hyear := lt_of_at hat (by omega)
  have hyearOf : Date.yearOf y m < 0x8000000000000000 := by
    unfold Date.yearOf
    split <;> omega
  have hmonth := Date.monthOf_bounds hat.month
  have hday := hat.day
  have hlength := (Date.lengthOf_bounds y m).2
  refine ⟨⟨word (Date.yearOf y m), .ofNat (Date.monthOf m), .ofNat (k + 1),
    seconds % 86400 / 3600, seconds % 86400 % 3600 / 60, seconds % 86400 % 60⟩, ?_, ?_⟩
  · rw [fields?, hdays, hword, Option.bind_eq_bind, Option.bind_some, civil?_word hat (by omega)]
    rfl
  · rw [hdate]
    exact {
      year := toInt_word hyearOf
      month := UInt32.toNat_ofNat_of_lt' (Nat.lt_of_le_of_lt hmonth.2 (by decide))
      day := UInt32.toNat_ofNat_of_lt' (Nat.lt_of_le_of_lt (Nat.le_trans hday hlength) (by decide))
      hour := by rw [UInt64.toNat_div, hrest]; rfl
      minute := by rw [UInt64.toNat_div, UInt64.toNat_mod, hrest]; rfl
      second := by rw [UInt64.toNat_mod, hrest]; rfl }

end LoaderBench.Time
