import LoaderBench.Text.Utf8

/-!
# Options

Arguments that consist of options alone: flags, which are given or not, and options with a value. A
value follows an equals sign or is the next argument; it must not be empty, and as an argument of its
own it must not look like an option. Every option is given once at most. Two hyphens end the options.
A wish for help is granted as soon as it is met, unless something before it is wrong.
-/

namespace LoaderBench.CommandLine

structure Grammar where
  flags : List String
  valued : List String

structure Given where
  flags : List String
  values : List (String × Bytes)
  deriving DecidableEq

def Given.none : Given := ⟨[], []⟩

/-- Why arguments are not followed. -/
inductive Turn where
  | help
  | misuse
  deriving DecidableEq

/-! ### Single arguments -/

def hyphen : UInt8 := 45

def equals : UInt8 := 61

/-- What an argument is among options. -/
inductive Shape where
  | plain
  | stop
  | short (letters : Bytes)
  | long (name : Bytes) (value : Option Bytes)
  deriving DecidableEq

def longShape (text : Bytes) : Shape :=
  let name := text.takeWhile (· != equals)
  match text.drop name.length with
  | [] => .long name none
  | _ :: value => .long name (some value)

/-- The shape of an argument. A hyphen alone is no option. -/
def shape (argument : Bytes) : Shape :=
  match argument with
  | first :: second :: rest =>
    if first = hyphen then
      if second = hyphen then (if rest = [] then .stop else longShape rest)
      else .short (second :: rest)
    else .plain
  | _ => .plain

def helpName : Bytes := Utf8.encode "help"

def helpLetter : UInt8 := 104

def asksHelp : Shape → Bool
  | .short letters => letters.head? == some helpLetter
  | .long name value => name == helpName && value.isNone
  | _ => false

/-! ### Lists of arguments -/

/-- Enters a flag, unless it was given. -/
def Given.addFlag (given : Given) (name : String) : Except Turn Given :=
  if given.flags.contains name then .error .misuse
  else .ok { given with flags := given.flags ++ [name] }

/-- Enters a value, unless it is empty or there is one. -/
def Given.addValue (given : Given) (name : String) (value : Bytes) : Except Turn Given :=
  if value = [] ∨ (given.values.lookup name).isSome then .error .misuse
  else .ok { given with values := given.values ++ [(name, value)] }

def Grammar.read (grammar : Grammar) : Given → List Bytes → Except Turn Given
  | given, [] => .ok given
  | given, argument :: rest =>
    let named (names : List String) (name : Bytes) := names.find? fun n => Utf8.encode n == name
    match shape argument with
    | .plain => .error .misuse
    | .stop => if rest = [] then .ok given else .error .misuse
    | .short letters => .error (if asksHelp (.short letters) then .help else .misuse)
    | .long name (some value) =>
      match named grammar.valued name with
      | none => .error .misuse
      | some option => do
        let given ← given.addValue option value
        grammar.read given rest
    | .long name none =>
      if asksHelp (.long name none) then .error .help
      else
        match named grammar.flags name, named grammar.valued name with
        | some flag, _ => do
          let given ← given.addFlag flag
          grammar.read given rest
        | none, none => .error .misuse
        | none, some option =>
          match rest with
          | [] => .error .misuse
          | value :: rest =>
            if shape value = .plain then do
              let given ← given.addValue option value
              grammar.read given rest
            else .error .misuse

end LoaderBench.CommandLine
