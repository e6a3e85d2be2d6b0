import LoaderBench.Text.Decimal

/-!
# Reading signed numerals

A numeral is one sign at most and then digits, of which the first that leads out of the range stops
the reading. A character that is no digit is noticed before the digits after it, and after an overflow
of the digits before it.
-/

namespace LoaderBench.Text

inductive NumeralError where
  | empty
  | invalidDigit
  | tooLarge
  | tooSmall
  deriving DecidableEq

def NumeralError.message : NumeralError → String
  | .empty => "cannot parse integer from empty string"
  | .invalidDigit => "invalid digit found in string"
  | .tooLarge => "number too large to fit in target type"
  | .tooSmall => "number too small to fit in target type"

/-- Appends digits to a value that is not negative and stays at most `high`. -/
def readUp (high : Int) (value : Int) : List Char → Except NumeralError Int
  | [] => .ok value
  | c :: cs =>
    if c.isDigit then
      let next := value * 10 + digitValue c
      if next ≤ high then readUp high next cs else .error .tooLarge
    else .error .invalidDigit

/-- Appends digits to a value that is not positive and stays at least `low`. -/
def readDown (low : Int) (value : Int) : List Char → Except NumeralError Int
  | [] => .ok value
  | c :: cs =>
    if c.isDigit then
      let next := value * 10 - digitValue c
      if low ≤ next then readDown low next cs else .error .tooSmall
    else .error .invalidDigit

/-- Reads a numeral between `low` and `high`. -/
def readNumeral (low high : Int) : List Char → Except NumeralError Int
  | [] => .error .empty
  | ['+'] => .error .invalidDigit
  | ['-'] => .error .invalidDigit
  | '+' :: cs => readUp high 0 cs
  | '-' :: cs => readDown low 0 cs
  | cs => readUp high 0 cs

end LoaderBench.Text
