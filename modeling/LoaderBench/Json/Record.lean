import LoaderBench.Json.Skip

/-!
# Reading values of a known form

Readers of texts, whole numbers in a range, optional values, lists, named variants and records. A
record is written as an object, its members in any order and with unknown members between them, or as
an array of all its fields in their order. Its fields are collected in a *draft*.

A mismatch found between two lexemes (a field that is missing, or comes twice, or an array that is too
short) gets its place only when the closing bracket of the record has been looked for.
-/

namespace LoaderBench.Json

/-! ### Single values -/

/-- What stands at the front: a scalar that is read, or a bracket that is not. -/
def shapeAt (s : Input) : Except Fault (Shape × Input) :=
  match s with
  | '[' :: _ => .ok (.sequence, s)
  | '\x7b' :: _ => .ok (.map, s)
  | s => do
    let (a, rest) ← scalar s
    .ok (.scalar a, rest)

/-- The fault of a value that is not of the wanted type. -/
def unwanted (wanted : String) (s : Input) : Fault :=
  match shapeAt s with
  | .ok (shape, rest) => .before (.mismatch (.wrongType shape wanted)) rest
  | .error f => f

def textValue : Reader String := fun s =>
  match skipBlanks s with
  | [] => .error (.in .endInValue [])
  | c :: rest => if c = '"' then string rest else .error (unwanted "a string" (c :: rest))

/-- A number as a whole number between `low` and `high`. -/
def wholeBetween (wanted : String) (low high : Int) (n : Number) : Except Mismatch Int :=
  let shape := Shape.scalar (.number n)
  match n with
  | .integer i => if low ≤ i ∧ i ≤ high then .ok i else .error (.wrongValue shape wanted)
  | .real _ => .error (.wrongType shape wanted)

/-- Reads a whole number between `low` and `high`. -/
def wholeValue (wanted : String) (low high : Int) : Reader Int := fun s =>
  let checked (r : Number × Input) : Except Fault (Int × Input) :=
    match wholeBetween wanted low high r.1 with
    | .ok i => .ok (i, r.2)
    | .error m => .error (.before (.mismatch m) r.2)
  match skipBlanks s with
  | [] => .error (.in .endInValue [])
  | c :: rest =>
    if c = '-' then (number true rest).bind checked
    else if c.isDigit then (number false (c :: rest)).bind checked
    else .error (unwanted wanted (c :: rest))

def nullValue (s : Input) : Except Fault Input :=
  match skipBlanks s with
  | [] => .error (.in .endInValue [])
  | c :: rest =>
    if c = 'n' then word ['u', 'l', 'l'] rest else .error (unwanted "unit" (c :: rest))

/-- Reads a value, or null for none. -/
def optionalValue {α : Type} (reader : Reader α) : Reader (Option α) := fun s =>
  match skipBlanks s with
  | 'n' :: rest => do
    let rest ← word ['u', 'l', 'l'] rest
    .ok (none, rest)
  | s => do
    let (a, rest) ← reader s
    .ok (some a, rest)

def listValue {α : Type} (item : Reader α) : Reader (List α) := fun s =>
  match skipBlanks s with
  | [] => .error (.in .endInValue [])
  | c :: rest =>
    if c = '[' then items item (rest.length + 1) true rest
    else .error (unwanted "a sequence" (c :: rest))

/-! ### Named variants -/

def variantNamed {α : Type} (variants : List (String × α)) (name : String) : Except Mismatch α :=
  match variants.lookup name with
  | some a => .ok a
  | none => .error (.unknownVariant name (variants.map Prod.fst))

/-- Reads the name of a variant after its opening quote. -/
def variantName {α : Type} (variants : List (String × α)) : Reader α := fun s => do
  let (name, rest) ← string s
  match variantNamed variants name with
  | .ok a => .ok (a, rest)
  | .error m => .error (.before (.mismatch m) rest)

/-- Reads a variant: its name, or an object with the name as its one key and the value null. -/
def variantValue {α : Type} (variants : List (String × α)) : Reader α := fun s =>
  match skipBlanks s with
  | [] => .error (.in .endInValue [])
  | c :: rest =>
    if c = '\x7b' then do
      match ← nextKey true rest with
      | none => .error (.in .expectedValue (skipBlanks rest))
      | some rest =>
        let (a, rest) ← variantName variants rest
        let rest ← colon rest
        let rest ← nullValue rest
        match skipBlanks rest with
        | [] => .error (.before .endInObject [])
        | c :: rest =>
          if c = '\x7d' then .ok (a, rest) else .error (.before .expectedValue (c :: rest))
    else if c = '"' then variantName variants rest
    else .error (.in .expectedValue (c :: rest))

/-! ### Records -/

/-- Why the parts of a record are not read to the end: a fault, or a mismatch without a place yet. -/
inductive Stop where
  | fault (f : Fault)
  | mismatch (m : Mismatch) (rest : Input)

/-- A reader inside a record, whose faults have their places. -/
def placed {α : Type} (r : Except Fault α) : Except Stop α := r.mapError .fault

/-- A field of a record with drafts `δ`. -/
structure Field (δ : Type) where
  name : String
  filled : δ → Bool
  read : δ → Reader δ

/-- A field that is kept in its place of the draft. -/
def Field.of {δ β : Type} (name : String) (kept : δ → Option β) (keep : δ → β → δ)
    (reader : Reader β) : Field δ where
  name := name
  filled draft := (kept draft).isSome
  read draft s := do
    let (b, rest) ← reader s
    .ok (keep draft b, rest)

/-- The value of a field that must have been there. -/
def needed {β : Type} (name : String) : Option β → Except Mismatch β
  | none => .error (.missing name)
  | some b => .ok b

/-- The form of a record: its name in diagnostics, its fields in order, the draft to begin with, and
what a draft makes when no member is left. -/
structure Form (δ α : Type) where
  title : String
  fields : List (Field δ)
  start : δ
  finish : δ → Except Mismatch α

namespace Form

variable {δ α : Type}

/-- Reads one member after its key. Members that are no field are passed over. -/
def member (form : Form δ α) (key : String) (draft : δ) (s : Input) : Except Stop (δ × Input) :=
  match form.fields.find? (·.name == key) with
  | some field =>
    if field.filled draft then .error (.mismatch (.repeated key) s)
    else placed do
      let s ← colon s
      field.read draft s
  | none => placed do
    let s ← colon s
    let s ← skip s
    .ok (draft, s)

/-- Reads members up to the closing brace, which stays. -/
def members (form : Form δ α) : Nat → Bool → δ → Input → Except Stop (δ × Input)
  | 0, _, _, _ => .error (.fault ⟨.endInObject, 0⟩)
  | n + 1, first, draft, s => do
    match ← placed (nextKey first s) with
    | none => .ok (draft, s)
    | some s =>
      let (key, s) ← placed (string s)
      let (draft, s) ← form.member key draft s
      members form n false draft s

/-- The members of a record written as an object. -/
def ofMembers (form : Form δ α) (s : Input) : Except Stop (α × Input) := do
  let (draft, s) ← form.members (s.length + 1) true form.start s
  match form.finish draft with
  | .ok a => .ok (a, s)
  | .error m => .error (.mismatch m s)

/-- What a record written as an array should be. -/
def wantedElements (form : Form δ α) : String :=
  form.title ++ " with " ++ String.ofList (Text.digits form.fields.length) ++ " elements"

/-- Reads elements for the fields that are left. -/
def elements (form : Form δ α) : List (Field δ) → Bool → δ → Input → Except Stop (δ × Input)
  | [], _, draft, s => .ok (draft, s)
  | field :: fields, first, draft, s => do
    match ← placed (nextItem first s) with
    | none =>
      .error (.mismatch (.wrongLength (form.fields.length - (fields.length + 1)) form.wantedElements) s)
    | some s =>
      let (draft, s) ← placed (field.read draft s)
      elements form fields false draft s

def ofElements (form : Form δ α) (s : Input) : Except Stop (α × Input) := do
  let (draft, s) ← form.elements form.fields true form.start s
  match form.finish draft with
  | .ok a => .ok (a, s)
  | .error m => .error (.mismatch m s)

end Form

/-- The text after the closing brace of a record. -/
def closeObject (s : Input) : Except Fault Input :=
  match skipBlanks s with
  | [] => .error (.in .endInObject [])
  | c :: rest =>
    if c = '\x7d' then .ok rest
    else if c = ',' then .error (.in .trailingComma (c :: rest))
    else .error (.in .trailingText (c :: rest))

/-- The text after the closing bracket of a record written as an array. -/
def closeList (s : Input) : Except Fault Input :=
  match skipBlanks s with
  | [] => .error (.in .endInList [])
  | c :: rest =>
    if c = ']' then .ok rest
    else if c = ',' then
      match skipBlanks rest with
      | [] => .error (.in .trailingText [])
      | d :: rest => .error (.in (if d = ']' then .trailingComma else .trailingText) (d :: rest))
    else .error (.in .trailingText (c :: rest))

/-- Where looking for the closing brace of a record comes to rest. -/
def objectEnd (s : Input) : Input :=
  match skipBlanks s with
  | '\x7d' :: rest => rest
  | s => s

/-- Where looking for the closing bracket of a record written as an array comes to rest. -/
def listEnd (s : Input) : Input :=
  match skipBlanks s with
  | ']' :: rest => rest
  | ',' :: rest => skipBlanks rest
  | s => s

/-- Completes a record: the closing bracket is read, and a mismatch gets its place. -/
def complete {α : Type} (close : Input → Except Fault Input) (rests : Input → Input)
    (r : Except Stop (α × Input)) : Except Fault (α × Input) :=
  match r with
  | .ok (a, s) => do
    let s ← close s
    .ok (a, s)
  | .error (.fault f) => .error f
  | .error (.mismatch m s) => .error (.before (.mismatch m) (rests s))

def Form.reader {δ α : Type} (form : Form δ α) : Reader α := fun s =>
  match skipBlanks s with
  | [] => .error (.in .endInValue [])
  | c :: rest =>
    if c = '\x7b' then complete closeObject objectEnd (form.ofMembers rest)
    else if c = '[' then complete closeList listEnd (form.ofElements rest)
    else .error (unwanted form.title (c :: rest))

end LoaderBench.Json
