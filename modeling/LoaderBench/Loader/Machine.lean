import LoaderBench.Text.Utf8

/-!
# The platform loader

A loader knows a set of libraries by name. It opens them, looks up symbols in them, and closes them.
Failures are told the way of the platform: a null result, an error number, and a message that is kept
until `dlerror` fetches it. What each call does with number and message is part of the library
described, so that every way of failing can be stated. All calls but `dlerror` leave an event in the
trace.
-/

namespace LoaderBench.Loader

/-- What a failing call leaves behind: an error number and a message, where it sets them. -/
structure Mishap where
  number : Option Int32
  message : Option Bytes
  deriving DecidableEq

/-- A call that leaves neither number nor message. -/
def Mishap.silent : Mishap := ⟨none, none⟩

/-- A library that can be opened: its symbols, each a null pointer or a function with the number it
returns, and what failing look-ups and closings leave behind. -/
structure Image where
  name : Bytes
  symbols : List (Bytes × Option Int32)
  lookupMishap : Mishap
  closeResult : Int32
  closeMishap : Mishap
  deriving DecidableEq

/-- A call that reached the loader. -/
inductive Event where
  | dlopen (name : Bytes) (flags : Nat)
  | dlsym (library symbol : Bytes)
  | call (symbol : Bytes)
  | dlclose (library : Bytes)
  deriving DecidableEq

structure Machine where
  images : List Image
  openMishap : Mishap
  fetchNumber : Int32
  number : Int32
  pending : Option Bytes
  trace : List Event

namespace Machine

/-- The loader before any call, with a message that an earlier program may have left. -/
def initial (images : List Image) (openMishap : Mishap) (fetchNumber : Int32)
    (stale : Option Bytes) : Machine :=
  ⟨images, openMishap, fetchNumber, 0, stale, []⟩

/-- The loader after a failure. -/
def suffer (m : Machine) (mishap : Mishap) : Machine :=
  { m with
    number := mishap.number.getD m.number
    pending := mishap.message.or m.pending }

def noting (m : Machine) (event : Event) : Machine := { m with trace := m.trace ++ [event] }

/-- Bind every import now, and keep the symbols from other libraries. -/
def openFlags : Nat := 2

def dlopen (m : Machine) (name : Bytes) (flags : Nat) : Option Image × Machine :=
  let m := m.noting (.dlopen name flags)
  match m.images.find? (·.name == name) with
  | some image => (some image, m)
  | none => (none, m.suffer m.openMishap)

/-- Looks up a symbol: the number its function returns, or a null pointer. A symbol that is null is no
failure of the look-up. -/
def dlsym (m : Machine) (image : Image) (symbol : Bytes) : Option Int32 × Machine :=
  let m := m.noting (.dlsym image.name symbol)
  match image.symbols.lookup symbol with
  | some target => (target, m)
  | none => (none, m.suffer image.lookupMishap)

def call (m : Machine) (symbol : Bytes) (result : Int32) : Int32 × Machine :=
  (result, m.noting (.call symbol))

def dlclose (m : Machine) (image : Image) : Int32 × Machine :=
  let m := m.noting (.dlclose image.name)
  (image.closeResult, if image.closeResult = 0 then m else m.suffer image.closeMishap)

/-- Fetches the pending message, which is then gone. Fetching sets the error number. -/
def dlerror (m : Machine) : Option Bytes × Machine :=
  (m.pending, { m with pending := none, number := m.fetchNumber })

/-! ### What each call does to the trace -/

@[simp] theorem trace_suffer (m : Machine) (mishap : Mishap) :
    (m.suffer mishap).trace = m.trace := rfl

@[simp] theorem trace_noting (m : Machine) (event : Event) :
    (m.noting event).trace = m.trace ++ [event] := rfl

@[simp] theorem trace_dlerror (m : Machine) : m.dlerror.2.trace = m.trace := rfl

@[simp] theorem trace_dlopen (m : Machine) (name : Bytes) (flags : Nat) :
    (m.dlopen name flags).2.trace = m.trace ++ [.dlopen name flags] := by
  simp only [dlopen]
  split <;> simp

@[simp] theorem trace_dlsym (m : Machine) (image : Image) (symbol : Bytes) :
    (m.dlsym image symbol).2.trace = m.trace ++ [.dlsym image.name symbol] := by
  simp only [dlsym]
  split <;> simp

@[simp] theorem trace_dlclose (m : Machine) (image : Image) :
    (m.dlclose image).2.trace = m.trace ++ [.dlclose image.name] := by
  simp only [dlclose]
  split <;> simp

end Machine
end LoaderBench.Loader
