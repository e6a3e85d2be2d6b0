import LoaderBench.Loader.Machine
import LoaderBench.Text.Decimal

/-!
# Open libraries

A `Library` is what a successful `load` hands out; it is given back once, by `close`, which reports a
failure, or by `drop`, which does not. A failure carries the error number as the failing call left it,
taken before the message is fetched, since fetching sets the number too. Messages left over from
earlier calls are fetched away before each call that may fail.
-/

namespace LoaderBench.Loader

open LoaderBench.Text

structure Failure where
  api : String
  code : Int32
  detail : Option String
  deriving DecidableEq

def codeLabel : String := "errno"

def loadApi : String := "dlopen"

def resolveApi : String := "dlsym"

def releaseApi : String := "dlclose"

/-- A failure in words: the number, and the message after a colon if there is one. -/
def Failure.text (f : Failure) : String :=
  codeLabel ++ "=" ++ signed f.code.toInt ++
    match f.detail with
    | none => ""
    | some detail => ": " ++ detail

structure Library where
  image : Image
  deriving DecidableEq

structure Function where
  symbol : Bytes
  result : Int32
  deriving DecidableEq

/-- A message as text: it ends at the first NUL byte, and what is not UTF-8 is replaced. -/
def messageText (message : Bytes) : String := Utf8.lossy (message.takeWhile (· != 0))

/-- The failure of the call just made. -/
def lastFailure (api : String) (m : Machine) : Failure × Machine :=
  let code := m.number
  let (message, m) := m.dlerror
  (⟨api, code, message.map messageText⟩, m)

/-- The number of a path that leads nowhere. -/
def noSuchFile : Int32 := 2

/-- The number of an argument that no call accepts. -/
def invalidArgument : Int32 := 22

namespace Library

/-- Opens a library. An empty name would be the program itself, and a name with a NUL byte cannot be
handed over, so neither reaches the loader. -/
def load (name : Bytes) (m : Machine) : Except Failure Library × Machine :=
  if name = [] then (.error ⟨loadApi, noSuchFile, some "empty library path"⟩, m)
  else if name.contains 0 then
    (.error ⟨loadApi, invalidArgument, some "library name contains a NUL byte"⟩, m)
  else
    let (_, m) := m.dlerror
    match m.dlopen name Machine.openFlags with
    | (some image, m) => (.ok ⟨image⟩, m)
    | (none, m) =>
      let (failure, m) := lastFailure loadApi m
      (.error failure, m)

def function (library : Library) (symbol : Bytes) (m : Machine) : Except Failure Function × Machine :=
  let (_, m) := m.dlerror
  match m.dlsym library.image symbol with
  | (some result, m) => (.ok ⟨symbol, result⟩, m)
  | (none, m) =>
    let (failure, m) := lastFailure resolveApi m
    (.error failure, m)

/-- Gives a library back and reports a failure to close it. The library is gone either way. -/
def close (library : Library) (m : Machine) : Except Failure Unit × Machine :=
  let (_, m) := m.dlerror
  let (result, m) := m.dlclose library.image
  if result = 0 then (.ok (), m)
  else
    let (failure, m) := lastFailure releaseApi m
    (.error failure, m)

/-- Gives a library back without looking at the outcome. -/
def drop (library : Library) (m : Machine) : Machine := (m.dlclose library.image).2

end Library

def Function.call (function : Function) (m : Machine) : Int32 × Machine :=
  m.call function.symbol function.result

def Function.callMany (function : Function) : Nat → Machine → List Int32 × Machine
  | 0, m => ([], m)
  | n + 1, m =>
    let (result, m) := function.call m
    let (results, m) := function.callMany n m
    (result :: results, m)

end LoaderBench.Loader
