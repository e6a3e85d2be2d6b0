import LoaderBench.Json.Lexeme

/-!
# Between the parts of arrays and objects

What may stand before an item, before a key, before a value, and at the closing bracket. `items` and
`pairs` read all parts of an array or an object with a reader of one part. Their counters are bounds:
as every part takes a character at least, a counter of the characters left runs out only when the text
has.
-/

namespace LoaderBench.Json

/-! ### Before a part -/

/-- The front of the next item, if the array does not close first. -/
def nextItem (first : Bool) (s : Input) : Except Fault (Option Input) :=
  match skipBlanks s with
  | [] => .error (.in .endInList [])
  | c :: s =>
    if c = ']' then .ok none
    else if first then .ok (some (c :: s))
    else if c = ',' then
      match skipBlanks s with
      | [] => .error (.in .endInValue [])
      | d :: s => if d = ']' then .error (.in .trailingComma (d :: s)) else .ok (some (d :: s))
    else .error (.in .expectedListEnd (c :: s))

/-- The text after the opening quote of the next key, if the object does not close first. -/
def nextKey (first : Bool) (s : Input) : Except Fault (Option Input) :=
  match skipBlanks s with
  | [] => .error (.in .endInObject [])
  | c :: s =>
    if c = '\x7d' then .ok none
    else if first then
      if c = '"' then .ok (some s) else .error (.in .keyNotString (c :: s))
    else if c = ',' then
      match skipBlanks s with
      | [] => .error (.in .endInValue [])
      | d :: s =>
        if d = '"' then .ok (some s)
        else if d = '\x7d' then .error (.in .trailingComma (d :: s))
        else .error (.in .keyNotString (d :: s))
    else .error (.in .expectedObjectEnd (c :: s))

/-- The text after the colon that follows a key. -/
def colon (s : Input) : Except Fault Input :=
  match skipBlanks s with
  | [] => .error (.in .endInObject [])
  | c :: s => if c = ':' then .ok s else .error (.in .expectedColon (c :: s))

/-! ### All parts -/

/-- Reads items up to the closing bracket, and the bracket. -/
def items {α : Type} (item : Reader α) : Nat → Bool → Input → Except Fault (List α × Input)
  | 0, _, _ => .error ⟨.endInList, 0⟩
  | n + 1, first, s => do
    match ← nextItem first s with
    | none => .ok ([], (skipBlanks s).tail)
    | some s =>
      let (a, s) ← item s
      let (as, s) ← items item n false s
      .ok (a :: as, s)

/-- Reads pairs of key and value up to the closing brace, and the brace. -/
def pairs {α : Type} (value : Reader α) :
    Nat → Bool → Input → Except Fault (List (String × α) × Input)
  | 0, _, _ => .error ⟨.endInObject, 0⟩
  | n + 1, first, s => do
    match ← nextKey first s with
    | none => .ok ([], (skipBlanks s).tail)
    | some s =>
      let (k, s) ← string s
      let s ← colon s
      let (a, s) ← value s
      let (as, s) ← pairs value n false s
      .ok ((k, a) :: as, s)

/-! ### Whole texts -/

/-- The place of a fault in the text it was met in. -/
def Fault.locate (text : Input) (f : Fault) : Error :=
  let bytes := text.flatMap String.utf8EncodeChar
  ⟨f.cause, some (Position.after (bytes.take (bytes.length - f.left)))⟩

/-- Reads a whole text: nothing but blanks may follow what the reader takes. -/
def readAll {α : Type} (reader : Reader α) (text : String) : Except Error α :=
  match reader text.toList with
  | .error f => .error (f.locate text.toList)
  | .ok (a, rest) =>
    match skipBlanks rest with
    | [] => .ok a
    | c :: s => .error (Fault.locate text.toList (.in .trailingText (c :: s)))

end LoaderBench.Json
