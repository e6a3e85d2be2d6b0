/-!
# JSON values

A value keeps what its text says: the members of an object in the order written, repeated keys
included. `lookup` gives the rule for repeated keys: the last one counts.
-/

namespace LoaderBench.Json

/-- A number: whole and between `-2^63` and `2^64 - 1`, or a binary64 number. -/
inductive Number where
  | integer (i : Int)
  | real (x : Float)
  deriving DecidableEq

/-- A value without parts. -/
inductive Scalar where
  | null
  | boolean (b : Bool)
  | number (n : Number)
  | text (s : String)
  deriving DecidableEq

inductive Value where
  | scalar (s : Scalar)
  | array (items : List Value)
  | object (members : List (String × Value))

namespace Value

@[match_pattern] abbrev text (s : String) : Value := .scalar (.text s)

@[match_pattern] abbrev integer (i : Int) : Value := .scalar (.number (.integer i))

@[match_pattern] abbrev null : Value := .scalar .null

end Value

/-- The members of an object, in the order written. -/
abbrev Members := List (String × Value)

/-- The value of a key: that of its last occurrence. -/
def lookup (key : String) : Members → Option Value
  | [] => none
  | (k, v) :: rest =>
    match lookup key rest with
    | some w => some w
    | none => if k = key then some v else none

theorem lookup_append (key : String) (a b : Members) :
    lookup key (a ++ b) = (lookup key b).or (lookup key a) := by
  induction a with
  | nil => simp [lookup]
  | cons m rest ih =>
    obtain ⟨k, v⟩ := m
    simp only [List.cons_append, lookup, ih]
    cases lookup key b <;> cases lookup key rest <;> simp

/-- The different keys of an object. -/
def keys (members : Members) : List String := (members.map Prod.fst).eraseDups

/-- What a value is, as far as a diagnostic tells. -/
inductive Shape where
  | scalar (s : Scalar)
  | sequence
  | map
  deriving DecidableEq

def Value.shape : Value → Shape
  | .scalar s => .scalar s
  | .array _ => .sequence
  | .object _ => .map

end LoaderBench.Json
