import LoaderBench.Text.Utf8
import LoaderBench.Text.Unshown

/-!
# Quoted texts

The form in which diagnostics show a text or a path unambiguously: between double quotes, with
backslash escapes for the quote, the backslash and the common controls, and `\u` with a hexadecimal
number in braces for every other character that would not be seen. A path shows the bytes of a broken
run as `\x` with two capital hexadecimal digits each.
-/

namespace LoaderBench.Text

/-- A character by number, in lower-case hexadecimal digits. -/
def byNumber (c : Char) : List Char :=
  ['\\', 'u', '\x7b'] ++ Nat.toDigits 16 c.toNat ++ ['\x7d']

def quotedChar (c : Char) : List Char :=
  if c = '\x00' then ['\\', '0']
  else if c = '\t' then ['\\', 't']
  else if c = '\r' then ['\\', 'r']
  else if c = '\n' then ['\\', 'n']
  else if c = '"' then ['\\', '"']
  else if c = '\\' then ['\\', '\\']
  else if needsNumber c then byNumber c
  else [c]

def quoted (s : String) : String :=
  String.ofList ('"' :: s.toList.flatMap quotedChar ++ ['"'])

def hexByte (b : UInt8) : List Char :=
  ((Nat.toDigits 16 b.toNat).map Char.toUpper).leftpad 2 '0'

def quotedPiece : Utf8.Piece → List Char
  | .char c => quotedChar c
  | .broken bytes => bytes.flatMap fun b => ['\\', 'x'] ++ hexByte b

def quotedPath (path : Bytes) : String :=
  String.ofList ('"' :: (Utf8.pieces path).flatMap quotedPiece ++ ['"'])

end LoaderBench.Text
