/-!
# Decimal texts

Whole numbers in base ten: plain, signed, and filled up with zeros to a least width.
-/

namespace LoaderBench.Text

/-- The decimal digits of a number, without leading zeros. -/
def digits (n : Nat) : List Char := Nat.toDigits 10 n

/-- The decimal text of a number with at least `width` digits. -/
def padded (width n : Nat) : String := String.ofList ((digits n).leftpad width '0')

/-- The decimal text of a whole number, with a minus sign where it is negative. -/
def signed (i : Int) : String :=
  String.ofList (if i < 0 then '-' :: digits i.natAbs else digits i.natAbs)

def digitValue (c : Char) : Nat := c.toNat - '0'.toNat

end LoaderBench.Text
