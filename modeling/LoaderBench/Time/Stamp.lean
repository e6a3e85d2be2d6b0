import LoaderBench.Text.Decimal
import LoaderBench.Time.Calendar

/-!
# Time stamps

UTC stamps of the form `YYYY-MM-DDTHH:MM:SS.mmmZ`. Each field is filled up with zeros to its width;
a year that needs more than four digits takes them.
-/

namespace LoaderBench.Time

open LoaderBench.Text

def dayLength : Nat := 86400

def Date.text (d : Date) : String :=
  padded 4 d.year ++ "-" ++ padded 2 d.month ++ "-" ++ padded 2 d.day

/-- The time of day, given in seconds since midnight. -/
def clockText (seconds : Nat) : String :=
  padded 2 (seconds / 3600) ++ ":" ++ padded 2 (seconds % 3600 / 60) ++ ":" ++ padded 2 (seconds % 60)

/-- The stamp of a moment given in seconds since the epoch and milliseconds. -/
def stamp (seconds : UInt64) (millis : UInt32) : String :=
  (Date.ofDays (seconds.toNat / dayLength)).text ++ "T" ++ clockText (seconds.toNat % dayLength) ++
    "." ++ padded 3 millis.toNat ++ "Z"

/-- A reading of the wall clock: seconds since the epoch, negative before it, and the nanoseconds
that have passed of the next second. -/
structure Moment where
  seconds : Int
  nanos : Nat

/-- The stamp of a clock reading. Readings before the epoch count as the epoch. -/
def Moment.stamp (t : Moment) : String :=
  if t.seconds < 0 then Time.stamp 0 0
  else Time.stamp (UInt64.ofNat t.seconds.toNat) (UInt32.ofNat (t.nanos / 1000000))

end LoaderBench.Time
