import LoaderBench.Json.Error

/-!
# Writing values

Two written forms: `compact` without any blanks, and `pretty` with one item or member on a line,
indented by two spaces for each open bracket. An empty array or object is written without a break in
both.
-/

namespace LoaderBench.Json

open LoaderBench.Text

/-! ### Scalars -/

/-- The hexadecimal digits of a control character's number. -/
def controlDigits (c : Char) : List Char := (Nat.toDigits 16 c.toNat).leftpad 4 '0'

/-- A character within a string. Only quote, backslash and controls are escaped. -/
def escaped (c : Char) : List Char :=
  if c = '"' then ['\\', '"']
  else if c = '\\' then ['\\', '\\']
  else if c = '\x08' then ['\\', 'b']
  else if c = '\x0C' then ['\\', 'f']
  else if c = '\n' then ['\\', 'n']
  else if c = '\r' then ['\\', 'r']
  else if c = '\t' then ['\\', 't']
  else if c < ' ' then ['\\', 'u'] ++ controlDigits c
  else [c]

def stringText (s : String) : List Char := '"' :: s.toList.flatMap escaped ++ ['"']

def scalarText : Scalar → List Char
  | .null => ['n', 'u', 'l', 'l']
  | .boolean true => ['t', 'r', 'u', 'e']
  | .boolean false => ['f', 'a', 'l', 's', 'e']
  | .number n => n.shown.toList
  | .text s => stringText s

/-! ### Without blanks -/

mutual

/-- A value without blanks. -/
def compactText : Value → List Char
  | .scalar s => scalarText s
  | .array [] => ['[', ']']
  | .array (v :: vs) => '[' :: compactText v ++ compactItems vs
  | .object [] => ['\x7b', '\x7d']
  | .object ((k, v) :: ms) =>
    '\x7b' :: stringText k ++ ':' :: compactText v ++ compactMembers ms

/-- The further items of an array, and its end. -/
def compactItems : List Value → List Char
  | [] => [']']
  | v :: vs => ',' :: compactText v ++ compactItems vs

/-- The further members of an object, and its end. -/
def compactMembers : Members → List Char
  | [] => ['\x7d']
  | (k, v) :: ms => ',' :: stringText k ++ ':' :: compactText v ++ compactMembers ms

end

/-- A value without blanks. -/
def compact (v : Value) : String := String.ofList (compactText v)

/-! ### On several lines -/

/-- A line break, and the indentation within `depth` brackets. -/
def newline (depth : Nat) : List Char := '\n' :: List.replicate (2 * depth) ' '

mutual

/-- A value within `depth` brackets, one part on a line. -/
def prettyText (depth : Nat) : Value → List Char
  | .scalar s => scalarText s
  | .array [] => ['[', ']']
  | .array (v :: vs) =>
    '[' :: newline (depth + 1) ++ prettyText (depth + 1) v ++ prettyItems depth vs
  | .object [] => ['\x7b', '\x7d']
  | .object ((k, v) :: ms) =>
    '\x7b' :: newline (depth + 1) ++ stringText k ++ [':', ' '] ++ prettyText (depth + 1) v ++
      prettyMembers depth ms

/-- The further items of an array, and its end. -/
def prettyItems (depth : Nat) : List Value → List Char
  | [] => newline depth ++ [']']
  | v :: vs => ',' :: newline (depth + 1) ++ prettyText (depth + 1) v ++ prettyItems depth vs

/-- The further members of an object, and its end. -/
def prettyMembers (depth : Nat) : Members → List Char
  | [] => newline depth ++ ['\x7d']
  | (k, v) :: ms =>
    ',' :: newline (depth + 1) ++ stringText k ++ [':', ' '] ++ prettyText (depth + 1) v ++
      prettyMembers depth ms

end

/-- A value on several lines. -/
def pretty (v : Value) : String := String.ofList (prettyText 0 v)

end LoaderBench.Json
