import LoaderBench.Text.Utf8

/-!
# Hexadecimal texts

Bytes as two lower-case hexadecimal digits each.
-/

namespace LoaderBench.Text

def hexPair (b : UInt8) : List Char := (Nat.toDigits 16 b.toNat).leftpad 2 '0'

def hexText (bytes : Bytes) : String := String.ofList (bytes.flatMap hexPair)

/-- The value of a digit. Upper-case letters are none. -/
def hexValue? (c : Char) : Option Nat :=
  if '0' ≤ c ∧ c ≤ '9' then some (c.toNat - '0'.toNat)
  else if 'a' ≤ c ∧ c ≤ 'f' then some (c.toNat - 'a'.toNat + 10)
  else none

/-- The bytes that digits tell, two for each. -/
def hexBytes? : List Char → Option Bytes
  | [] => some []
  | [_] => none
  | a :: b :: rest => do
    let high ← hexValue? a
    let low ← hexValue? b
    let bytes ← hexBytes? rest
    some (UInt8.ofNat (high * 16 + low) :: bytes)

end LoaderBench.Text
