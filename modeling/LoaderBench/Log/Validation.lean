import LoaderBench.Json.Reader
import LoaderBench.Json.Record
import LoaderBench.Log.Entry

/-!
# Checking log lines

A line is valid if it is an object that has the required fields, and all fields have their types.
Missing fields and an unknown level are all told together; only a line without such violations is
looked at for the types of its fields, and of those the first by name is told. A field that is null is
as good as absent where it may be absent, and unknown fields do not count.
-/

namespace LoaderBench.Log

open LoaderBench.Json LoaderBench.Text

/-! ### Violations -/

/-- What is wrong with a line. -/
inductive Flaw where
  | malformed (e : Json.Error)
  | notObject
  | missing (field : String)
  | unknownLevel (name : String)
  | mismatch (m : Mismatch)
  deriving DecidableEq

def Flaw.field : Flaw → String
  | .malformed _ => "<json>"
  | .notObject => "<root>"
  | .missing field => field
  | .unknownLevel _ => "level"
  | .mismatch _ => "<schema>"

def Flaw.message : Flaw → String
  | .malformed e => "invalid JSON: " ++ e.message
  | .notObject => "expected JSON object"
  | .missing _ => "required field missing"
  | .unknownLevel name => "invalid level: '" ++ name ++ "'"
  | .mismatch m => m.message

structure Violation where
  line : UInt64
  flaw : Flaw
  deriving DecidableEq

def Violation.text (v : Violation) : String :=
  "line " ++ String.ofList (digits v.line.toNat) ++ ": " ++ v.flaw.field ++ ": " ++ v.flaw.message

/-! ### The types of fields -/

def textOf : Value → Except Mismatch String
  | .text s => .ok s
  | v => .error (.wrongType v.shape "a string")

/-- A value as a whole number of 32 bits. -/
def int32Of : Value → Except Mismatch Int32
  | .scalar (.number n) =>
    (wholeBetween "i32" Int32.minValue.toInt Int32.maxValue.toInt n).map Int32.ofInt
  | v => .error (.wrongType v.shape "i32")

/-- A value as nothing. -/
def nullOf : Value → Except Mismatch Unit
  | .null => .ok ()
  | v => .error (.wrongType v.shape "unit")

/-- A value as a level: its name, or an object with the name as its one key and the value null. -/
def levelOf : Value → Except Mismatch Level
  | .text s => variantNamed levels s
  | .object members =>
    match keys members with
    | [key] => do
      let level ← variantNamed levels key
      nullOf ((lookup key members).getD .null)
      .ok level
    | _ => .error (.wrongValue .map "map with a single key")
  | v => .error (.wrongType v.shape "string or map")

/-- A field that must be there. -/
def required {α : Type} (members : Members) (field : String) (of : Value → Except Mismatch α) :
    Except Mismatch α :=
  match lookup field members with
  | none => .error (.missing field)
  | some v => of v

/-- A field that may be absent or null. -/
def allowed {α : Type} (members : Members) (field : String) (of : Value → Except Mismatch α) :
    Except Mismatch (Option α) :=
  match lookup field members with
  | none => .ok none
  | some .null => .ok none
  | some v => (of v).map some

/-- The record that an object holds. Fields are looked at in the order of their names. -/
def entryOf (members : Members) : Except Mismatch Entry := do
  let detail ← allowed members "detail" textOf
  let event ← required members "event" textOf
  let exitCode ← allowed members "exit_code" int32Of
  let fixtureId ← allowed members "fixture_id" int32Of
  let host ← allowed members "host" textOf
  let level ← required members "level" levelOf
  let mode ← allowed members "mode" textOf
  let osCode ← allowed members "os_code" int32Of
  let symbol ← allowed members "symbol" textOf
  let target ← allowed members "target" textOf
  let timestamp ← required members "timestamp" textOf
  let traceId ← required members "trace_id" textOf
  .ok ⟨timestamp, traceId, level, event, host, mode, target, symbol, fixtureId, osCode, exitCode,
    detail⟩

/-! ### Lines -/

def requiredFields : List String := ["timestamp", "trace_id", "level", "event"]

/-- What is missing in an object, and whether its level is an unknown name. -/
def omissions (members : Members) : List Flaw :=
  (requiredFields.filter fun field => (lookup field members).isNone).map .missing ++
    match lookup "level" members with
    | some (.text name) => if (levels.lookup name).isNone then [.unknownLevel name] else []
    | _ => []

/-- The record that a line holds, or its flaws. -/
def check (line : String) : Except (List Flaw) Entry :=
  match parse line with
  | .error e => .error [.malformed e]
  | .ok (.object members) =>
    match omissions members with
    | [] => (entryOf members).mapError fun m => [.mismatch m]
    | flaws => .error flaws
  | .ok _ => .error [.notObject]

/-- The record that a numbered line holds, or its violations. -/
def validate (line : String) (number : UInt64) : Except (List Violation) Entry :=
  (check line).mapError fun flaws => flaws.map (⟨number, ·⟩)

end LoaderBench.Log
