import LoaderBench.Proofs.Text.Ascii
import LoaderBench.Proofs.Time.Stamp

/-!
# Stamps sort like time

As long as years have four digits, all fields of a stamp have the width of their place, and stamps sort
like the moments they show. Later years take more digits, so that stamps no longer sort; they still
differ. A clock that stands before the epoch gives the stamp of the epoch.
-/

namespace LoaderBench.Time

open LoaderBench.Text

variable {n n' : Nat} {seconds seconds' : UInt64} {millis millis' : UInt32}

/-! ### Dates in order -/

namespace Date

/-- A date comes before another: the year decides first, then the month, then the day. -/
def Before (d e : Date) : Prop :=
  d.year < e.year ∨ d.year = e.year ∧ (d.month < e.month ∨ d.month = e.month ∧ d.day < e.day)

theorem Before.irrefl (d : Date) : ¬ d.Before d := by
  unfold Before
  omega

instance : IsTrans Date Before where
  trans d e f hde hef := by
    unfold Before at *
    omega

theorem before_next (d : Date) : d.Before d.next := by
  unfold Date.next
  split_ifs
  · exact .inr ⟨rfl, .inr ⟨rfl, Nat.lt_succ_self _⟩⟩
  · exact .inr ⟨rfl, .inl (Nat.lt_succ_self _)⟩
  · exact .inl (Nat.lt_succ_self _)

theorem before_iterate (h : n < n') : (Date.next^[n] epoch).Before (Date.next^[n'] epoch) := by
  refine Nat.rel_of_forall_rel_succ_of_lt Before (f := fun n => Date.next^[n] epoch) (fun n => ?_) h
  rw [Function.iterate_succ_apply']
  exact before_next _

theorem iterate_inj (h : Date.next^[n] epoch = Date.next^[n'] epoch) : n = n' := by
  rcases Nat.lt_trichotomy n n' with hlt | heq | hgt
  · exact absurd (h ▸ before_iterate hlt) (Before.irrefl _)
  · exact heq
  · exact absurd (h ▸ before_iterate hgt) (Before.irrefl _)

/-- The last day whose year has four digits. -/
theorem iterate_last : Date.next^[2932896] epoch = ⟨9999, 12, 31⟩ := by
  rw [← ofDays_eq_iterate]
  decide +kernel

theorem year_iterate_lt (h : n < 2932897) : (Date.next^[n] epoch).year < 10000 := by
  rcases Nat.lt_or_eq_of_le (Nat.le_of_lt_succ h) with hlt | rfl
  · have hbefore : Before (Date.next^[n] epoch) ⟨9999, 12, 31⟩ := iterate_last ▸ before_iterate hlt
    rcases hbefore with hyear | ⟨hyear, -⟩
    · exact Nat.lt_succ_of_lt hyear
    · exact hyear ▸ Nat.lt_succ_self 9999
  · rw [iterate_last]
    decide

end Date

/-! ### Fields in order -/

section

variable {width a a' b b' c c' : Nat} {sep last : Char} {xs ys : List Char}

theorem padded_three_lt (hwidth : 0 < width) (ha : a' < 10 ^ width) (hb : b' < 10 ^ 2)
    (hc : c' < 10 ^ 2)
    (h : a < a' ∨ a = a' ∧ (b < b' ∨ b = b' ∧ (c < c' ∨ c = c' ∧ xs < ys))) :
    (padded width a).toList ++ sep :: ((padded 2 b).toList ++ sep :: ((padded 2 c).toList ++
      last :: xs)) <
    (padded width a').toList ++ sep :: ((padded 2 b').toList ++ sep :: ((padded 2 c').toList ++
      last :: ys)) := by
  refine padded_append_lt hwidth ha (h.imp_right ?_)
  rintro ⟨hfirst, hrest⟩
  refine ⟨hfirst, padded_append_lt (by decide) hb (hrest.imp_right ?_)⟩
  rintro ⟨hsecond, hlast⟩
  exact ⟨hsecond, padded_append_lt (by decide) hc hlast⟩

end

/-! ### Stamps in order -/

/-- The first second of the year 10000. -/
def fiveDigitYears : UInt64 := 253402300800

theorem year_counted_lt (h : seconds < fiveDigitYears) : (counted seconds).year < 10000 := by
  have hbound : seconds.toNat < 253402300800 := UInt64.lt_iff_toNat_lt.mp h
  exact Date.year_iterate_lt (by omega)

/-- Of two seconds the earlier has the earlier date, or it is earlier on the same day. -/
theorem counted_before (h : seconds < seconds') : (counted seconds).Before (counted seconds') ∨
    counted seconds = counted seconds' ∧ seconds.toNat % 86400 < seconds'.toNat % 86400 := by
  have hlt : seconds.toNat < seconds'.toNat := UInt64.lt_iff_toNat_lt.mp h
  have hdays : seconds.toNat / 86400 ≤ seconds'.toNat / 86400 := Nat.div_le_div_right (Nat.le_of_lt hlt)
  rcases Nat.lt_or_eq_of_le hdays with hday | hday
  · exact .inl (Date.before_iterate hday)
  · refine .inr ⟨?_, by omega⟩
    rw [counted, hday, counted]

theorem toList_stamp_lt (hmillis' : millis'.toNat < 1000) (hseconds' : seconds' < fiveDigitYears)
    (h : seconds < seconds' ∨ seconds = seconds' ∧ millis < millis') :
    (stamp seconds millis).toList < (stamp seconds' millis').toList := by
  rw [toList_stamp, toList_stamp]
  refine padded_three_lt (by decide) (year_counted_lt hseconds') (month_counted_lt seconds')
    (day_counted_lt seconds') ?_
  rcases h with hlt | ⟨rfl, hmilli⟩
  · rcases counted_before hlt with (hyear | ⟨hyear, hmonth | ⟨hmonth, hday⟩⟩) | ⟨hdate, hrest⟩
    · exact .inl hyear
    · exact .inr ⟨hyear, .inl hmonth⟩
    · exact .inr ⟨hyear, .inr ⟨hmonth, .inl hday⟩⟩
    · rw [hdate]
      refine .inr ⟨rfl, .inr ⟨rfl, .inr ⟨rfl, ?_⟩⟩⟩
      refine padded_three_lt (by decide) (by omega) (by omega) (by omega) ?_
      omega
  · refine .inr ⟨rfl, .inr ⟨rfl, .inr ⟨rfl, ?_⟩⟩⟩
    refine padded_three_lt (by decide) (by omega) (by omega) (by omega) ?_
    have hlt : millis.toNat < millis'.toNat := UInt32.lt_iff_toNat_lt.mp hmilli
    exact .inr ⟨rfl, .inr ⟨rfl, .inr ⟨rfl, padded_append_lt (by decide) hmillis' (.inl hlt)⟩⟩⟩

theorem ascii_stamp (seconds : UInt64) (millis : UInt32) :
    ∀ c ∈ (stamp seconds millis).toList, c.toNat < 0x80 := by
  intro c hc
  rw [toList_stamp] at hc
  simp only [layout, List.mem_append, List.mem_cons, List.not_mem_nil, or_false] at hc
  rcases hc with hc | rfl | hc | rfl | hc | rfl | hc | rfl | hc | rfl | hc | rfl | hc | rfl
  all_goals first | decide | exact ascii_padded (by decide) hc

theorem length_encode_stamp (hmillis : millis.toNat < 1000) (hseconds : seconds < fiveDigitYears) :
    (Utf8.encode (stamp seconds millis)).length = 24 := by
  rw [Utf8.length_encode_ascii (ascii_stamp seconds millis), toList_stamp]
  simp only [layout, List.length_append, List.length_cons, List.length_nil]
  rw [length_padded (by decide) (year_counted_lt hseconds),
    length_padded (by decide) (month_counted_lt seconds),
    length_padded (by decide) (day_counted_lt seconds), length_padded (by decide) (by omega),
    length_padded (by decide) (by omega), length_padded (by decide) (by omega),
    length_padded (by decide) hmillis]

theorem encode_stamp_lt_iff (hmillis : millis.toNat < 1000) (hmillis' : millis'.toNat < 1000)
    (hseconds : seconds < fiveDigitYears) (hseconds' : seconds' < fiveDigitYears) :
    Utf8.encode (stamp seconds millis) < Utf8.encode (stamp seconds' millis') ↔
      seconds < seconds' ∨ seconds = seconds' ∧ millis < millis' := by
  constructor
  · intro hlt
    by_contra hnot
    have hlater : (seconds = seconds' ∧ millis = millis') ∨
        (seconds' < seconds ∨ seconds' = seconds ∧ millis' < millis) := by
      grind
    rcases hlater with ⟨rfl, rfl⟩ | hlater
    · exact List.lt_irrefl _ hlt
    · exact List.lt_asymm hlt (Utf8.encode_lt_encode (ascii_stamp _ _) (ascii_stamp _ _)
        (toList_stamp_lt hmillis hseconds hlater))
  · intro h
    exact Utf8.encode_lt_encode (ascii_stamp _ _) (ascii_stamp _ _)
      (toList_stamp_lt hmillis' hseconds' h)

/-! ### Later years -/

/-- However many digits years take, no two moments share a stamp. -/
theorem stamp_injective (h : stamp seconds millis = stamp seconds' millis') :
    seconds = seconds' ∧ millis = millis' := by
  obtain ⟨hdate, hrest, hmillis⟩ := stamp_inj h
  have hday := Date.iterate_inj hdate
  exact ⟨UInt64.toNat_inj.mp (by omega), hmillis⟩

/-! ### Readings of the clock -/

namespace Moment

/-- A reading that is not after another. -/
def NotAfter (t t' : Moment) : Prop :=
  t.seconds < t'.seconds ∨ t.seconds = t'.seconds ∧ t.nanos ≤ t'.nanos

variable {t t' : Moment}

theorem stamp_of_neg (ht : t.seconds < 0) : t.stamp = Time.stamp 0 0 := if_pos ht

/-- The second and the millisecond that the stamp of a reading shows. -/
theorem stamp_eq (ht : t.seconds < 253402300800) (hnanos : t.nanos < 1000000000) :
    ∃ seconds millis, t.stamp = Time.stamp seconds millis ∧ seconds.toNat = t.seconds.toNat ∧
      millis.toNat = if t.seconds < 0 then 0 else t.nanos / 1000000 := by
  by_cases hneg : t.seconds < 0
  · refine ⟨0, 0, stamp_of_neg hneg, ?_, ?_⟩
    · exact (Int.toNat_of_nonpos (Int.le_of_lt hneg)).symm
    · rw [if_pos hneg]
      rfl
  · refine ⟨_, _, if_neg hneg, ?_, ?_⟩
    · exact UInt64.toNat_ofNat_of_lt' (Nat.lt_trans (m := 253402300800) (by omega) (by decide))
    · rw [if_neg hneg]
      exact UInt32.toNat_ofNat_of_lt' (Nat.lt_trans (m := 1000) (by omega) (by decide))

/-- A later reading never gives a stamp that sorts before. -/
theorem not_encode_stamp_lt (hnanos : t.nanos < 1000000000) (hnanos' : t'.nanos < 1000000000)
    (ht' : t'.seconds < 253402300800) (h : t.NotAfter t') :
    ¬ Utf8.encode t'.stamp < Utf8.encode t.stamp := by
  unfold NotAfter at h
  have hbound : fiveDigitYears.toNat = 253402300800 := rfl
  obtain ⟨seconds, millis, hstamp, hseconds, hmillis⟩ := stamp_eq (t := t) (by omega) hnanos
  obtain ⟨seconds', millis', hstamp', hseconds', hmillis'⟩ := stamp_eq ht' hnanos'
  have hsmall : millis.toNat < 1000 := by split at hmillis <;> omega
  have hsmall' : millis'.toNat < 1000 := by split at hmillis' <;> omega
  rw [hstamp, hstamp', encode_stamp_lt_iff hsmall' hsmall (UInt64.lt_iff_toNat_lt.mpr (by omega))
    (UInt64.lt_iff_toNat_lt.mpr (by omega)), UInt64.lt_iff_toNat_lt, UInt32.lt_iff_toNat_lt,
    ← UInt64.toNat_inj]
  -- Before the epoch seconds and milliseconds count as zero, which is not after anything.
  split at hmillis <;> split at hmillis' <;> omega

end Moment

/-! ### The order of stamps -/

/-- Up to the year 10000 stamps sort in the bytes of their texts like the moments they show, and later
they still differ. The clock's readings give stamps that never go back. -/
theorem stamps_sort_like_time :
    (∀ (seconds seconds' : UInt64) (millis millis' : UInt32),
      millis.toNat < 1000 → millis'.toNat < 1000 →
      seconds < 253402300800 → seconds' < 253402300800 →
      ((seconds < seconds' ∨ seconds = seconds' ∧ millis < millis') ↔
        Utf8.encode (stamp seconds millis) < Utf8.encode (stamp seconds' millis'))) ∧
    (∀ (seconds : UInt64) (millis : UInt32), millis.toNat < 1000 → seconds < 253402300800 →
      (Utf8.encode (stamp seconds millis)).length = 24) ∧
    (∀ (seconds seconds' : UInt64) (millis millis' : UInt32),
      stamp seconds millis = stamp seconds' millis' → seconds = seconds' ∧ millis = millis') ∧
    (∀ t t' : Moment, t.nanos < 1000000000 → t'.nanos < 1000000000 → t'.seconds < 253402300800 →
      t.NotAfter t' → ¬ Utf8.encode t'.stamp < Utf8.encode t.stamp) ∧
    ∀ t : Moment, t.seconds < 0 → t.stamp = stamp 0 0 := by
  refine ⟨?_, ?_, ?_, ?_, ?_⟩
  · intro seconds seconds' millis millis' hmillis hmillis' hseconds hseconds'
    exact (encode_stamp_lt_iff hmillis hmillis' hseconds hseconds').symm
  · intro seconds millis hmillis hseconds
    exact length_encode_stamp hmillis hseconds
  · intro seconds seconds' millis millis' h
    exact stamp_injective h
  · intro t t' hnanos hnanos' ht' h
    exact Moment.not_encode_stamp_lt hnanos hnanos' ht' h
  · intro t ht
    exact Moment.stamp_of_neg ht

/-- The last millisecond before a leap day, and the leap day. -/
theorem leap_day_sorts_behind :
    Utf8.encode "2000-02-28T23:59:59.999Z" < Utf8.encode "2000-02-29T00:00:00.000Z" := by
  have hlt := (stamps_sort_like_time.1 951782399 951782400 999 0 (by decide) (by decide) (by decide)
    (by decide)).mp (.inl (by decide))
  have hbefore : stamp 951782399 999 = "2000-02-28T23:59:59.999Z" := by decide +kernel
  have hafter : stamp 951782400 0 = "2000-02-29T00:00:00.000Z" := by decide +kernel
  rwa [hbefore, hafter] at hlt

/-- In the year 10000 a later stamp sorts before an earlier one. -/
example : stamp fiveDigitYears 0 = "10000-01-01T00:00:00.000Z" ∧
    Utf8.encode (stamp fiveDigitYears 0) < Utf8.encode (stamp (fiveDigitYears - 1) 0) := by
  decide +kernel

end LoaderBench.Time
