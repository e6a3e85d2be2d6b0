import LoaderBench.Json.Error

/-!
# The smallest parts of a JSON text

Readers of blanks, words, strings and numbers. A reader takes the characters still to be read and
returns what it has read with the rest, or a fault. A fault remembers how many bytes were left, from
which its place in the whole text follows.
-/

namespace LoaderBench.Json

open LoaderBench.Text

abbrev Input := List Char

/-- The size of a text in bytes. -/
def size (s : Input) : Nat := s.foldr (fun c n => c.utf8Size + n) 0

/-- A refusal, with the number of bytes that were left to read. -/
structure Fault where
  cause : Cause
  left : Nat
  deriving DecidableEq

/-- A fault noticed when `rest` was left. -/
def Fault.before (cause : Cause) (rest : Input) : Fault := ⟨cause, size rest⟩

/-- A fault in the first byte of `rest`: the place is after that byte, or at the end of the text. -/
def Fault.in (cause : Cause) (rest : Input) : Fault := ⟨cause, size rest - 1⟩

/-- A reader of `α`: what it reads off the front, and the rest. -/
abbrev Reader (α : Type) := Input → Except Fault (α × Input)

/-! ### Blanks and words -/

def isBlank (c : Char) : Bool := c == ' ' || c == '\n' || c == '\t' || c == '\r'

def skipBlanks (s : Input) : Input := s.dropWhile isBlank

/-- Reads the remaining characters of a word. -/
def word : List Char → Input → Except Fault Input
  | [], s => .ok s
  | _ :: _, [] => .error (.before .endInValue [])
  | e :: es, c :: s => if c = e then word es s else .error (.in .expectedWord (c :: s))

/-! ### Strings -/

def hexDigit (c : Char) : Option Nat :=
  if '0' ≤ c ∧ c ≤ '9' then some (c.toNat - '0'.toNat)
  else if 'a' ≤ c ∧ c ≤ 'f' then some (c.toNat - 'a'.toNat + 10)
  else if 'A' ≤ c ∧ c ≤ 'F' then some (c.toNat - 'A'.toNat + 10)
  else none

/-- Reads the four hexadecimal digits of an escape. Four bytes have to be there at all. -/
def hexEscape (s : Input) : Except Fault (Nat × Input) :=
  match s with
  | a :: b :: c :: d :: rest =>
    match hexDigit a, hexDigit b, hexDigit c, hexDigit d with
    | some a, some b, some c, some d => .ok (((a * 16 + b) * 16 + c) * 16 + d, rest)
    | _, _, _, _ => .error (short s)
  | _ => .error (short s)
where
  short (s : Input) : Fault := if size s < 4 then ⟨.endInString, 0⟩ else ⟨.badEscape, size s - 4⟩

/-- Whether a code unit is the first half of a pair. -/
def isHighSurrogate (n : Nat) : Bool := 0xD800 ≤ n && n ≤ 0xDBFF

/-- Whether a code unit is the second half of a pair. -/
def isLowSurrogate (n : Nat) : Bool := 0xDC00 ≤ n && n ≤ 0xDFFF

/-- The character that a pair of halves stands for. -/
def pairedChar (high low : Nat) : Char :=
  Char.ofNat ((high - 0xD800) * 0x400 + (low - 0xDC00) + 0x10000)

def shortEscapes : List (Char × Char) :=
  [('"', '"'), ('\\', '\\'), ('/', '/'), ('b', '\x08'), ('f', '\x0C'), ('n', '\n'), ('r', '\r'),
   ('t', '\t')]

/-- Reads the second half of a pair of escapes. -/
def lowEscape (high : Nat) (s : Input) : Except Fault Char :=
  match s with
  | [] => .error (.before .endInString [])
  | '\\' :: s =>
    match s with
    | [] => .error (.before .endInString [])
    | 'u' :: s => do
      let (low, rest) ← hexEscape s
      if isLowSurrogate low then .ok (pairedChar high low)
      else .error (.before .loneSurrogate rest)
    | s => .error (.in .surrogateEnd s)
  | s => .error (.in .surrogateEnd s)

/-- Reads an escape after its backslash: the character, and how many characters the escape takes. -/
def escape (s : Input) : Except Fault (Char × Nat) :=
  match s with
  | [] => .error (.before .endInString [])
  | 'u' :: s => do
    let (n, rest) ← hexEscape s
    if isLowSurrogate n then .error (.before .loneSurrogate rest)
    else if isHighSurrogate n then do
      let c ← lowEscape n rest
      .ok (c, 11)
    else .ok (Char.ofNat n, 5)
  | c :: rest =>
    match shortEscapes.lookup c with
    | some d => .ok (d, 1)
    | none => .error (.in .badEscape (c :: rest))

/-- Reads a string after its opening quote. The first argument counts characters of an escape that
has been read already. -/
def stringFrom : Nat → Input → Except Fault (List Char × Input)
  | _, [] => .error (.before .endInString [])
  | k + 1, _ :: s => stringFrom k s
  | 0, c :: s =>
    if c = '"' then .ok ([], s)
    else if c = '\\' then do
      let (d, k) ← escape s
      let (ds, rest) ← stringFrom k s
      .ok (d :: ds, rest)
    else if c < ' ' then .error (.in .controlInString (c :: s))
    else do
      let (ds, rest) ← stringFrom 0 s
      .ok (c :: ds, rest)

/-- Reads a string after its opening quote. -/
def string (s : Input) : Except Fault (String × Input) := do
  let (cs, rest) ← stringFrom 0 s
  .ok (String.ofList cs, rest)

/-! ### Numbers -/

/-- Appends digits to a significand as long as it stays below `2^64`, and counts those it took. -/
def absorb (significand : Nat) : List Char → Nat × Nat
  | [] => (significand, 0)
  | c :: cs =>
    let next := significand * 10 + digitValue c
    if next < 0x10000000000000000 then
      let (value, taken) := absorb next cs
      (value, taken + 1)
    else (significand, 0)

/-- A power of ten as a binary64 number. -/
def powerOfTen (n : Nat) : Float := Float.ofScientific 1 false n

/-- The greatest power of ten that a binary64 number holds. -/
def maxPower : Nat := 308

/-- Divides by the greatest power of ten a number of times, but no longer than there is something
left. -/
def drain : Nat → Float → Float
  | 0, x => x
  | n + 1, x => if x == 0 then x else drain n (x / powerOfTen maxPower)

/-- `significand · 10^exponent` as a binary64 number, rounded at each step, if it is finite. -/
def scaled (significand : Nat) (exponent : Int) : Option Float :=
  let x := (UInt64.ofNat significand).toFloat
  if 0 ≤ exponent then
    if exponent ≤ maxPower then
      let y := x * powerOfTen exponent.toNat
      if y.isInf then none else some y
    else if x == 0 then some x
    else none
  else
    let k := (-exponent).toNat
    let steps := (k - 1) / maxPower
    some (drain steps x / powerOfTen (k - steps * maxPower))

def signedReal (negative : Bool) (x : Float) : Number := .real (if negative then -x else x)

/-- The number with the given significand and scale, which ends before `rest`. -/
def real (negative : Bool) (significand : Nat) (exponent : Int) (rest : Input) :
    Except Fault (Number × Input) :=
  match scaled significand exponent with
  | some x => .ok (signedReal negative x, rest)
  | none => .error (.before .numberRange rest)

/-- The greatest exponent that is told apart from greater ones. -/
def maxExponent : Nat := 2147483647

/-- The value of exponent digits, or how many digits follow the one that made it too great. -/
def exponentValue (value : Nat) : List Char → Except Nat Nat
  | [] => .ok value
  | c :: cs =>
    let next := value * 10 + digitValue c
    if next ≤ maxExponent then exponentValue next cs else .error cs.length

/-- Reads the digits of an exponent and completes the number. -/
def exponentDigits (negative : Bool) (significand : Nat) (scale : Int) (down : Bool) (s : Input) :
    Except Fault (Number × Input) :=
  match s with
  | [] => .error (.before .endInValue [])
  | c :: _ =>
    if c.isDigit then
      let rest := s.dropWhile Char.isDigit
      match exponentValue 0 (s.takeWhile Char.isDigit) with
      | .ok e => real negative significand (if down then scale - e else scale + e) rest
      | .error after =>
        if significand ≠ 0 ∧ ¬ down then .error ⟨.numberRange, after + size rest⟩
        else .ok (signedReal negative 0, rest)
    else .error (.in .badNumber s)

/-- Reads what may follow the digits of a number: an exponent, or nothing. -/
def exponent (negative : Bool) (significand : Nat) (scale : Int) (s : Input) :
    Except Fault (Number × Input) :=
  match s with
  | c :: s' =>
    if c = 'e' ∨ c = 'E' then
      match s' with
      | '+' :: r => exponentDigits negative significand scale false r
      | '-' :: r => exponentDigits negative significand scale true r
      | r => exponentDigits negative significand scale false r
    else real negative significand scale s
  | [] => real negative significand scale s

/-- A whole number: those below `-2^63`, and minus zero, are real. -/
def whole (negative : Bool) (significand : Nat) : Number :=
  if negative then
    if significand = 0 ∨ 0x8000000000000000 < significand then
      .real (-(UInt64.ofNat significand).toFloat)
    else .integer (-significand)
  else .integer significand

/-- Reads what may follow the whole part of a number, of which `dropped` digits no longer fitted the
significand. -/
def fraction (negative : Bool) (significand dropped : Nat) (s : Input) :
    Except Fault (Number × Input) :=
  match s with
  | '.' :: s =>
    let ds := s.takeWhile Char.isDigit
    let rest := s.dropWhile Char.isDigit
    if ds.isEmpty then
      .error (.in (if rest.isEmpty then .endInValue else .badNumber) rest)
    else
      let (significand, taken) := absorb significand ds
      exponent negative significand ((dropped : Int) - taken) rest
  | c :: r =>
    if c = 'e' ∨ c = 'E' then exponent negative significand dropped (c :: r)
    else if dropped = 0 then .ok (whole negative significand, c :: r)
    else real negative significand dropped (c :: r)
  | [] =>
    if dropped = 0 then .ok (whole negative significand, [])
    else real negative significand dropped []

/-- Reads a number after its sign. A leading zero stands alone. -/
def number (negative : Bool) (s : Input) : Except Fault (Number × Input) :=
  match s with
  | [] => .error (.before .endInValue [])
  | c :: r =>
    if c = '0' then
      match r with
      | d :: _ => if d.isDigit then .error (.in .badNumber r) else fraction negative 0 0 r
      | [] => fraction negative 0 0 r
    else if c.isDigit then
      let ds := s.takeWhile Char.isDigit
      let (significand, taken) := absorb 0 ds
      fraction negative significand (ds.length - taken) (s.dropWhile Char.isDigit)
    else .error (.in .badNumber s)

/-! ### Scalars -/

/-- Reads a scalar that stands at the front. -/
def scalar (s : Input) : Except Fault (Scalar × Input) :=
  match s with
  | [] => .error (.in .endInValue [])
  | 'n' :: r => do
    let r ← word ['u', 'l', 'l'] r
    .ok (.null, r)
  | 't' :: r => do
    let r ← word ['r', 'u', 'e'] r
    .ok (.boolean true, r)
  | 'f' :: r => do
    let r ← word ['a', 'l', 's', 'e'] r
    .ok (.boolean false, r)
  | '-' :: r => do
    let (n, r) ← number true r
    .ok (.number n, r)
  | '"' :: r => do
    let (t, r) ← string r
    .ok (.text t, r)
  | c :: r =>
    if c.isDigit then do
      let (n, r) ← number false (c :: r)
      .ok (.number n, r)
    else .error (.in .expectedValue (c :: r))

end LoaderBench.Json
