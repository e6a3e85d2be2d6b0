import LoaderBench.Text.Decimal
import LoaderBench.Time.Calendar

/-!
# The calendar in machine words

The fields of a stamp as a machine computes them: seconds come as an unsigned word of 64 bits, days and
years are signed words, months and days of a month unsigned ones of 32 bits. A step whose result does
not fit its word, or that loses bits of a word, has no result here. The stamp is the text of the fields.
-/

namespace LoaderBench.Time

open LoaderBench.Text

/-! ### Steps -/

/-- A whole number as a signed word. -/
def word? (i : Int) : Option Int64 :=
  if Int64.minValue.toInt ≤ i ∧ i ≤ Int64.maxValue.toInt then some (.ofInt i) else none

def add? (a b : Int64) : Option Int64 := word? (a.toInt + b.toInt)

def sub? (a b : Int64) : Option Int64 := word? (a.toInt - b.toInt)

def mul? (a b : Int64) : Option Int64 := word? (a.toInt * b.toInt)

/-- The quotient, rounded towards zero. -/
def div? (a b : Int64) : Option Int64 := if b = 0 then none else word? (a.toInt.tdiv b.toInt)

/-- The quotient of which the rest is not negative. -/
def divEuclid? (a b : Int64) : Option Int64 := if b = 0 then none else word? (a.toInt / b.toInt)

/-- The rest that is not negative. It is lost where the quotient is. -/
def modEuclid? (a b : Int64) : Option Int64 := do
  let _ ← divEuclid? a b
  word? (a.toInt % b.toInt)

/-- A signed word as an unsigned one of half its length. -/
def half? (a : Int64) : Option UInt32 :=
  if 0 ≤ a.toInt ∧ a.toInt < 0x100000000 then some (.ofNat a.toInt.toNat) else none

/-! ### Dates -/

/-- The year of the era that holds a day of the era, years beginning with March. -/
def yearOfEra? (day : Int64) : Option Int64 := do
  let shortened ← sub? day (← div? day 1460)
  let lengthened ← add? shortened (← div? day 36524)
  div? (← sub? lengthened (← div? day 146096)) 365

/-- Days of the era before one of its years. -/
def daysBeforeYear? (year : Int64) : Option Int64 := do
  sub? (← add? (← mul? 365 year) (← div? year 4)) (← div? year 100)

/-- Days of a year that begins with March before one of its months. -/
def daysBeforeMonth? (month : Int64) : Option Int64 := do
  div? (← add? (← mul? 153 month) 2) 5

/-- The number of a month in the calendar, given its number from March on. -/
def monthNumber? (month : Int64) : Option UInt32 := do
  half? (← if month < 10 then add? month 3 else sub? month 9)

/-- The year that begins with March and holds the day that is a number of days after the epoch, and the
day of this year. -/
def yearAndDay? (days : Int64) : Option (Int64 × Int64) := do
  let shifted ← add? days 719468
  let era ← divEuclid? shifted 146097
  let dayOfEra ← modEuclid? shifted 146097
  let yoe ← yearOfEra? dayOfEra
  let dayOfYear ← sub? dayOfEra (← daysBeforeYear? yoe)
  let year ← add? yoe (← mul? era 400)
  some (year, dayOfYear)

/-- Year, month and day of the date that is a number of days after the epoch. -/
def civil? (days : Int64) : Option (Int64 × UInt32 × UInt32) := do
  let (year, dayOfYear) ← yearAndDay? days
  let monthFromMarch ← div? (← add? (← mul? 5 dayOfYear) 2) 153
  let day ← half? (← add? (← sub? dayOfYear (← daysBeforeMonth? monthFromMarch)) 1)
  let month ← monthNumber? monthFromMarch
  let year ← add? year (if month ≤ 2 then 1 else 0)
  some (year, month, day)

/-! ### Moments -/

structure Fields where
  year : Int64
  month : UInt32
  day : UInt32
  hour : UInt64
  minute : UInt64
  second : UInt64

/-- The fields of a moment given in seconds since the epoch. -/
def fields? (seconds : UInt64) : Option Fields := do
  let rest := seconds % 86400
  let (year, month, day) ← civil? (← word? (seconds / 86400).toNat)
  some ⟨year, month, day, rest / 3600, rest % 3600 / 60, rest % 60⟩

/-- A signed word in digits, filled up to a width. The minus sign counts as one of them. -/
def paddedWord (width : Nat) (a : Int64) : String :=
  if a.toInt < 0 then "-" ++ padded (width - 1) a.toInt.natAbs else padded width a.toInt.natAbs

/-- The stamp that shows fields and milliseconds. -/
def Fields.stamp (f : Fields) (millis : UInt32) : String :=
  paddedWord 4 f.year ++ "-" ++ padded 2 f.month.toNat ++ "-" ++ padded 2 f.day.toNat ++ "T" ++
    (padded 2 f.hour.toNat ++ ":" ++ padded 2 f.minute.toNat ++ ":" ++ padded 2 f.second.toNat) ++
    "." ++ padded 3 millis.toNat ++ "Z"

end LoaderBench.Time
