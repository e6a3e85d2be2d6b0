/-!
# The calendar

Dates of the proleptic Gregorian calendar from 1970 on. `Date.next` is the calendar as it is taught:
months have their lengths, February a day more in leap years. `Date.ofDays` finds the date a number of
days after the epoch without counting: it numbers days from 1 March of a year divisible by 400, where
eras of 146097 days repeat and the leap day closes the year.
-/

namespace LoaderBench.Time

/-- A day of the calendar; months and days count from one. -/
structure Date where
  year : Nat
  month : Nat
  day : Nat
  deriving DecidableEq, Repr

namespace Date

/-! ### Day by day -/

/-- 1 January 1970. -/
def epoch : Date := ⟨1970, 1, 1⟩

/-- Every fourth year is a leap year, but of the centuries only every fourth. -/
def isLeap (year : Nat) : Bool := year % 4 == 0 && (year % 100 != 0 || year % 400 == 0)

def monthLength (year month : Nat) : Nat :=
  if month = 2 then (if isLeap year then 29 else 28)
  else if month = 4 ∨ month = 6 ∨ month = 9 ∨ month = 11 then 30
  else 31

def next (d : Date) : Date :=
  if d.day < monthLength d.year d.month then { d with day := d.day + 1 }
  else if d.month < 12 then ⟨d.year, d.month + 1, 1⟩
  else ⟨d.year + 1, 1, 1⟩

/-! ### In closed form -/

/-- Days in four hundred years. -/
def eraLength : Nat := 146097

/-- Days from 1 March of year zero to the epoch. -/
def epochOffset : Nat := 719468

/-- The year of the era that holds a day of the era, years beginning with March. -/
def yearOfEra (day : Nat) : Nat :=
  (day - day / 1460 + day / 36524 - day / 146096) / 365

/-- Days of the era before one of its years. -/
def daysBeforeYear (year : Nat) : Nat := 365 * year + year / 4 - year / 100

/-- The date a number of days after the epoch. -/
def ofDays (days : Nat) : Date :=
  let shifted := days + epochOffset
  let era := shifted / eraLength
  let dayOfEra := shifted % eraLength
  let yoe := yearOfEra dayOfEra
  let dayOfYear := dayOfEra - daysBeforeYear yoe
  let monthFromMarch := (5 * dayOfYear + 2) / 153
  let day := dayOfYear - (153 * monthFromMarch + 2) / 5 + 1
  let month := if monthFromMarch < 10 then monthFromMarch + 3 else monthFromMarch - 9
  ⟨yoe + era * 400 + (if month ≤ 2 then 1 else 0), month, day⟩

end Date
end LoaderBench.Time
