import LoaderBench.Json.Value
import LoaderBench.Number.Shortest
import LoaderBench.Text.Decimal
import LoaderBench.Text.Quoted

/-!
# What can be wrong with a JSON text

A text is malformed, or it ends too early, or it is well-formed and does not have the form that is
asked for (a *mismatch*). Each cause has one message; an error that was met while reading a text also
tells the line, and the number of bytes of that line up to the place.
-/

namespace LoaderBench.Json

open LoaderBench.Text LoaderBench.Number

/-! ### Causes -/

/-- A well-formed value is not what is asked for. `wanted` names what is. -/
inductive Mismatch where
  | wrongType (found : Shape) (wanted : String)
  | wrongValue (found : Shape) (wanted : String)
  | wrongLength (found : Nat) (wanted : String)
  | missing (field : String)
  | repeated (field : String)
  | unknownVariant (name : String) (known : List String)
  deriving DecidableEq

/-- Why a text is refused. -/
inductive Cause where
  | endInList
  | endInObject
  | endInString
  | endInValue
  | expectedColon
  | expectedListEnd
  | expectedObjectEnd
  | expectedWord
  | expectedValue
  | badEscape
  | badNumber
  | numberRange
  | controlInString
  | keyNotString
  | loneSurrogate
  | surrogateEnd
  | trailingComma
  | trailingText
  | tooDeep
  | mismatch (m : Mismatch)
  deriving DecidableEq

inductive Category where
  | malformed
  | mismatch
  | ended
  deriving DecidableEq

def Cause.category : Cause → Category
  | .endInList | .endInObject | .endInString | .endInValue => .ended
  | .mismatch _ => .mismatch
  | _ => .malformed

/-! ### Messages -/

def Number.shown : Number → String
  | .integer i => signed i
  | .real x => realText x

def Shape.shown : Shape → String
  | .scalar .null => "null"
  | .scalar (.boolean true) => "boolean `true`"
  | .scalar (.boolean false) => "boolean `false`"
  | .scalar (.number (.integer i)) => "integer `" ++ signed i ++ "`"
  | .scalar (.number (.real x)) => "floating point `" ++ realText x ++ "`"
  | .scalar (.text s) => "string " ++ quoted s
  | .sequence => "sequence"
  | .map => "map"

def shownChoice : List String → String
  | [] => "there are no variants"
  | [a] => "expected `" ++ a ++ "`"
  | [a, b] => "expected `" ++ a ++ "` or `" ++ b ++ "`"
  | names => "expected one of " ++ ", ".intercalate (names.map fun n => "`" ++ n ++ "`")

def Mismatch.message : Mismatch → String
  | .wrongType found wanted => "invalid type: " ++ found.shown ++ ", expected " ++ wanted
  | .wrongValue found wanted => "invalid value: " ++ found.shown ++ ", expected " ++ wanted
  | .wrongLength found wanted =>
    "invalid length " ++ String.ofList (digits found) ++ ", expected " ++ wanted
  | .missing field => "missing field `" ++ field ++ "`"
  | .repeated field => "duplicate field `" ++ field ++ "`"
  | .unknownVariant name known => "unknown variant `" ++ name ++ "`, " ++ shownChoice known

def Cause.message : Cause → String
  | .endInList => "EOF while parsing a list"
  | .endInObject => "EOF while parsing an object"
  | .endInString => "EOF while parsing a string"
  | .endInValue => "EOF while parsing a value"
  | .expectedColon => "expected `:`"
  | .expectedListEnd => "expected `,` or `]`"
  | .expectedObjectEnd => "expected `,` or `\x7d`"
  | .expectedWord => "expected ident"
  | .expectedValue => "expected value"
  | .badEscape => "invalid escape"
  | .badNumber => "invalid number"
  | .numberRange => "number out of range"
  | .controlInString => "control character (\\u0000-\\u001F) found while parsing a string"
  | .keyNotString => "key must be a string"
  | .loneSurrogate => "lone leading surrogate in hex escape"
  | .surrogateEnd => "unexpected end of hex escape"
  | .trailingComma => "trailing comma"
  | .trailingText => "trailing characters"
  | .tooDeep => "recursion limit exceeded"
  | .mismatch m => m.message

/-! ### Places -/

/-- A place in a text: lines count from one, columns are the bytes since the last line break. -/
structure Position where
  line : Nat
  column : Nat
  deriving DecidableEq

/-- The place after the bytes `before`. -/
def Position.after (before : Bytes) : Position :=
  ⟨before.count 10 + 1, (before.reverse.takeWhile (· != 10)).length⟩

/-- A refusal: its cause, and the place if the text itself was being read. -/
structure Error where
  cause : Cause
  position : Option Position
  deriving DecidableEq

def Error.message (e : Error) : String :=
  match e.position with
  | none => e.cause.message
  | some p =>
    e.cause.message ++ " at line " ++ String.ofList (digits p.line) ++ " column " ++
      String.ofList (digits p.column)

def Error.category (e : Error) : Category := e.cause.category

end LoaderBench.Json
