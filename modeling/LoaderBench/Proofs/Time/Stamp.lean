import LoaderBench.Proofs.Text.Padded
import LoaderBench.Proofs.Time.Words
import LoaderBench.Time.Stamp

/-!
# What a stamp shows

A stamp shows the date that is reached by counting the days since the epoch one by one, and the time of
this day, each number in digits filled up to its width. The numbers are found again from the text.
-/

namespace LoaderBench.Time

open LoaderBench.Text

/-! ### The form of a stamp -/

/-- The fields of a stamp and what stands between them. -/
def layout (year month day hour minute second milli : List Char) : List Char :=
  year ++ '-' :: (month ++ '-' :: (day ++ 'T' :: (hour ++ ':' :: (minute ++ ':' :: (second ++
    '.' :: (milli ++ ['Z']))))))

/-- The digits of a number, filled up with zeros to exactly a width. -/
structure Field (width n : Nat) (cs : List Char) : Prop extends Filled width n cs where
  length_eq : cs.length = width

/-- A text that shows a date, the hour, minute and second of a number of seconds of the day, and
milliseconds. Only the year may be longer than its width. -/
def IsStamp (text : String) (date : Date) (rest millis : Nat) : Prop :=
  ∃ year month day hour minute second milli,
    text.toList = layout year month day hour minute second milli ∧
    Filled 4 date.year year ∧ Field 2 date.month month ∧ Field 2 date.day day ∧
    Field 2 (rest / 3600) hour ∧ Field 2 (rest % 3600 / 60) minute ∧ Field 2 (rest % 60) second ∧
    Field 3 millis milli

theorem field_padded {width n : Nat} (hwidth : 0 < width) (hn : n < 10 ^ width) :
    Field width n (padded width n).toList :=
  ⟨filled_padded n hwidth, length_padded hwidth hn⟩

theorem toList_text (d : Date) (rest millis : Nat) :
    (d.text ++ "T" ++ clockText rest ++ "." ++ padded 3 millis ++ "Z").toList =
      layout (padded 4 d.year).toList (padded 2 d.month).toList (padded 2 d.day).toList
        (padded 2 (rest / 3600)).toList (padded 2 (rest % 3600 / 60)).toList
        (padded 2 (rest % 60)).toList (padded 3 millis).toList := by
  have hdash : "-".toList = ['-'] := rfl
  have hcolon : ":".toList = [':'] := rfl
  have hT : "T".toList = ['T'] := rfl
  have hpoint : ".".toList = ['.'] := rfl
  have hZ : "Z".toList = ['Z'] := rfl
  simp only [Date.text, clockText, layout, String.toList_append, hdash, hcolon, hT, hpoint, hZ,
    List.append_assoc, List.cons_append, List.nil_append]

/-! ### The date and the time of day -/

/-- The date of a second, reached from the epoch day by day. -/
def counted (seconds : UInt64) : Date := Date.next^[seconds.toNat / 86400] Date.epoch

theorem month_counted_lt (seconds : UInt64) : (counted seconds).month < 100 :=
  Nat.lt_of_le_of_lt (Date.bounds_iterate (seconds.toNat / 86400)).1.2 (by decide)

theorem day_counted_lt (seconds : UInt64) : (counted seconds).day < 100 :=
  Nat.lt_of_le_of_lt (Date.bounds_iterate (seconds.toNat / 86400)).2.2 (by decide)

theorem ofDays_eq_counted (seconds : UInt64) :
    Date.ofDays (seconds.toNat / dayLength) = counted seconds := Date.ofDays_eq_iterate _

theorem toList_stamp (seconds : UInt64) (millis : UInt32) : (stamp seconds millis).toList =
    layout (padded 4 (counted seconds).year).toList (padded 2 (counted seconds).month).toList
      (padded 2 (counted seconds).day).toList (padded 2 (seconds.toNat % 86400 / 3600)).toList
      (padded 2 (seconds.toNat % 86400 % 3600 / 60)).toList
      (padded 2 (seconds.toNat % 86400 % 60)).toList (padded 3 millis.toNat).toList := by
  rw [stamp, toList_text, ofDays_eq_counted, dayLength]

theorem isStamp_stamp (seconds : UInt64) {millis : UInt32} (hmillis : millis.toNat < 1000) :
    IsStamp (stamp seconds millis) (counted seconds) (seconds.toNat % 86400) millis.toNat :=
  ⟨_, _, _, _, _, _, _, toList_stamp seconds millis, filled_padded _ (by decide),
    field_padded (by decide) (month_counted_lt seconds), field_padded (by decide) (day_counted_lt seconds),
    field_padded (by decide) (by omega), field_padded (by decide) (by omega),
    field_padded (by decide) (by omega), field_padded (by decide) hmillis⟩

theorem paddedWord_eq {a : Int64} {n : Nat} (width : Nat) (h : a.toInt = n) :
    paddedWord width a = padded width n := by
  have hpos : ¬ (n : Int) < 0 := by omega
  rw [paddedWord, h, if_neg hpos, Int.natAbs_natCast]

/-- Fields that tell a date and a time of day are shown as these. -/
theorem Fields.Tells.stamp_eq {f : Fields} {date : Date} {rest : Nat} (h : f.Tells date rest)
    (millis : UInt32) : f.stamp millis =
      date.text ++ "T" ++ clockText rest ++ "." ++ padded 3 millis.toNat ++ "Z" := by
  rw [Fields.stamp, paddedWord_eq 4 h.year, h.month, h.day, h.hour, h.minute, h.second, Date.text,
    clockText]

/-- The machine's arithmetic never leaves its words, and its fields are those that the stamp shows. -/
theorem fields?_stamp (seconds : UInt64) (millis : UInt32) : ∃ f, fields? seconds = some f ∧
    f.Tells (counted seconds) (seconds.toNat % 86400) ∧ f.stamp millis = stamp seconds millis := by
  obtain ⟨f, hf, htells⟩ := fields?_tells seconds
  refine ⟨f, hf, htells, ?_⟩
  rw [htells.stamp_eq, stamp, ofDays_eq_counted, dayLength, counted]

/-- Every stamp shows the date that is reached day by day, whether it is computed in whole numbers or in
the words of a machine. -/
theorem stamp_shows_counted_date (seconds : UInt64) (millis : UInt32) (hmillis : millis.toNat < 1000) :
    (∃ f, fields? seconds = some f ∧ f.Tells (counted seconds) (seconds.toNat % 86400) ∧
      f.stamp millis = stamp seconds millis) ∧
    IsStamp (stamp seconds millis) (counted seconds) (seconds.toNat % 86400) millis.toNat :=
  ⟨fields?_stamp seconds millis, isStamp_stamp seconds hmillis⟩

/-- The last second that the clock can tell. -/
theorem last_stamp_shows_its_date :
    IsStamp "584554051223-11-09T07:00:15.999Z" ⟨584554051223, 11, 9⟩ 25215 999 := by
  have hshows := (stamp_shows_counted_date 0xFFFFFFFFFFFFFFFF 999 (by decide)).2
  have hdate : counted 0xFFFFFFFFFFFFFFFF = ⟨584554051223, 11, 9⟩ := by
    rw [← ofDays_eq_counted]
    decide +kernel
  have hrest : (0xFFFFFFFFFFFFFFFF : UInt64).toNat % 86400 = 25215 := rfl
  have hmillis : (999 : UInt32).toNat = 999 := rfl
  have htext : stamp 0xFFFFFFFFFFFFFFFF 999 = "584554051223-11-09T07:00:15.999Z" := by decide +kernel
  rwa [hdate, hrest, hmillis, htext] at hshows

/-! ### Reading a stamp -/

/-- The numbers of a stamp are found again from its text. -/
theorem stamp_inj {seconds seconds' : UInt64} {millis millis' : UInt32}
    (h : stamp seconds millis = stamp seconds' millis') : counted seconds = counted seconds' ∧
      seconds.toNat % 86400 = seconds'.toNat % 86400 ∧ millis = millis' := by
  have hlists := congrArg String.toList h
  rw [toList_stamp, toList_stamp, layout, layout] at hlists
  obtain ⟨hyear, hlists⟩ := padded_append_inj (by decide) (by decide) hlists
  obtain ⟨hmonth, hlists⟩ := padded_append_inj (by decide) (by decide) hlists
  obtain ⟨hday, hlists⟩ := padded_append_inj (by decide) (by decide) hlists
  obtain ⟨hhour, hlists⟩ := padded_append_inj (by decide) (by decide) hlists
  obtain ⟨hminute, hlists⟩ := padded_append_inj (by decide) (by decide) hlists
  obtain ⟨hsecond, hlists⟩ := padded_append_inj (by decide) (by decide) hlists
  obtain ⟨hmilli, -⟩ := padded_append_inj (by decide) (by decide) hlists
  exact ⟨Date.ext hyear hmonth hday, by omega, UInt32.toNat_inj.mp hmilli⟩

end LoaderBench.Time
