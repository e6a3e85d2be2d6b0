import LoaderBench.Json.Sequence

/-!
# Passing over a value

A value that nobody asks for is only checked for its form: strings and numbers may stand for nothing,
and brackets may nest without limit. Open brackets are kept in a list, the innermost first.
-/

namespace LoaderBench.Json

/-! ### Scalars -/

/-- Passes over an escape after its backslash, and counts its characters. -/
def skipEscape (s : Input) : Except Fault Nat :=
  match s with
  | [] => .error (.before .endInString [])
  | 'u' :: s => do
    let _ ← hexEscape s
    .ok 5
  | c :: rest =>
    match shortEscapes.lookup c with
    | some _ => .ok 1
    | none => .error (.in .badEscape (c :: rest))

/-- Passes over a string after its opening quote. The first argument counts characters of an escape
that has been passed already. -/
def skipStringFrom : Nat → Input → Except Fault Input
  | _, [] => .error (.before .endInString [])
  | k + 1, _ :: s => skipStringFrom k s
  | 0, c :: s =>
    if c = '"' then .ok s
    else if c = '\\' then
      match skipEscape s with
      | .ok k => skipStringFrom k s
      | .error f => .error f
    else if c < ' ' then .error (.before .controlInString (c :: s))
    else skipStringFrom 0 s

/-- Passes over a string after its opening quote. -/
def skipString (s : Input) : Except Fault Input := skipStringFrom 0 s

/-- Passes over an exponent after its letter. -/
def skipExponent (s : Input) : Except Fault Input :=
  let s := match s with
    | '+' :: r => r
    | '-' :: r => r
    | r => r
  match s with
  | c :: _ => if c.isDigit then .ok (s.dropWhile Char.isDigit) else .error (.in .badNumber s)
  | [] => .error (.in .badNumber [])

/-- Passes over an exponent, if there is one. -/
def skipScale (s : Input) : Except Fault Input :=
  match s with
  | c :: r => if c = 'e' ∨ c = 'E' then skipExponent r else .ok s
  | [] => .ok []

/-- Passes over a fraction and an exponent, if there are any. -/
def skipFraction (s : Input) : Except Fault Input :=
  match s with
  | '.' :: r =>
    match r with
    | c :: _ => if c.isDigit then skipScale (r.dropWhile Char.isDigit) else .error (.in .badNumber r)
    | [] => .error (.in .badNumber [])
  | s => skipScale s

/-- Passes over a number after its sign. -/
def skipNumber (s : Input) : Except Fault Input :=
  match s with
  | [] => .error (.before .badNumber [])
  | c :: r =>
    if c = '0' then
      match r with
      | d :: _ => if d.isDigit then .error (.in .badNumber r) else skipFraction r
      | [] => .ok []
    else if c.isDigit then skipFraction (s.dropWhile Char.isDigit)
    else .error (.in .badNumber s)

def skipScalar (s : Input) : Except Fault Input :=
  match s with
  | [] => .error (.in .endInValue [])
  | 'n' :: r => word ['u', 'l', 'l'] r
  | 't' :: r => word ['r', 'u', 'e'] r
  | 'f' :: r => word ['a', 'l', 's', 'e'] r
  | '-' :: r => skipNumber r
  | '"' :: r => skipString r
  | c :: r => if c.isDigit then skipNumber (c :: r) else .error (.in .expectedValue (c :: r))

/-! ### Arrays and objects -/

inductive Bracket where
  | list
  | object
  deriving DecidableEq

def Bracket.closing : Bracket → Char
  | .list => ']'
  | .object => '\x7d'

/-- The fault of a text that ends within a bracket. -/
def Bracket.ended : Bracket → Cause
  | .list => .endInList
  | .object => .endInObject

/-- The fault of a part that is followed by neither comma nor closing bracket. -/
def Bracket.expectedEnd : Bracket → Cause
  | .list => .expectedListEnd
  | .object => .expectedObjectEnd

/-- Passes over what comes before a value within a bracket: in an object the key and its colon. -/
def skipKey (b : Bracket) (s : Input) : Except Fault Input :=
  match b with
  | .list => .ok s
  | .object =>
    match skipBlanks s with
    | [] => .error (.in .endInObject [])
    | c :: s =>
      if c = '"' then do
        let s ← skipString s
        colon s
      else .error (.in .keyNotString (c :: s))

/-- What is expected next: a value, the first part of a bracket just opened, or what follows a
part. -/
inductive Phase where
  | value
  | opened
  | after
  deriving DecidableEq

/-- Passes over the rest of a value within the open brackets. The counter bounds the steps: each takes
a character, or leads to one that does. -/
def skipFrom : Nat → Phase → List Bracket → Input → Except Fault Input
  | 0, _, _, _ => .error ⟨.endInValue, 0⟩
  | n + 1, .value, open_, s =>
    match skipBlanks s with
    | [] => .error (.in .endInValue [])
    | c :: rest =>
      if c = '[' then skipFrom n .opened (.list :: open_) rest
      else if c = '\x7b' then skipFrom n .opened (.object :: open_) rest
      else
        match skipScalar (c :: rest) with
        | .ok rest => skipFrom n .after open_ rest
        | .error f => .error f
  | _ + 1, .opened, [], s => .ok s
  | n + 1, .opened, b :: open_, s =>
    match skipBlanks s with
    | [] => .error (.in b.ended [])
    | c :: rest =>
      if c = b.closing then skipFrom n .after open_ rest
      else
        match skipKey b (c :: rest) with
        | .ok rest => skipFrom n .value (b :: open_) rest
        | .error f => .error f
  | _ + 1, .after, [], s => .ok s
  | n + 1, .after, b :: open_, s =>
    match skipBlanks s with
    | [] => .error (.in b.ended [])
    | c :: rest =>
      if c = ',' then
        match skipKey b rest with
        | .ok rest => skipFrom n .value (b :: open_) rest
        | .error f => .error f
      else if c = b.closing then skipFrom n .after open_ rest
      else .error (.in b.expectedEnd (c :: rest))

def skip (s : Input) : Except Fault Input := skipFrom (2 * s.length + 2) .value [] s

end LoaderBench.Json
