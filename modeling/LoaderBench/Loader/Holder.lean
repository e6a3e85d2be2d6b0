import LoaderBench.Loader.Library

/-!
# What a program may do with libraries

A program owns the libraries that it has opened, and the functions that it has looked up in a library
belong to that library: when the library is given back, by `close` or by `drop`, both are gone. A
library is named by a *handle*, the number of libraries opened before it, which is never given out
again. `act` is an operation on what is held; there is none on a library that was given back, nor on a
function that was not looked up in a library still held.
-/

namespace LoaderBench.Loader

/-- A library that is held, with the functions looked up in it. -/
structure Holding where
  library : Library
  functions : List Function
  deriving DecidableEq

/-- A program at work: the loader, and for each handle what is held under it, if anything still is. -/
structure Holder where
  machine : Machine
  holdings : List (Option Holding)

inductive Operation where
  | load (name : Bytes)
  | function (handle : Nat) (symbol : Bytes)
  | call (handle : Nat) (function : Function)
  | close (handle : Nat)
  | drop (handle : Nat)
  deriving DecidableEq

inductive Answer where
  | opened (handle : Nat)
  | found (function : Function)
  | returned (result : Int32)
  | done
  | failed (failure : Failure)
  deriving DecidableEq

namespace Holder

/-- A program that holds nothing yet. -/
def new (machine : Machine) : Holder := ⟨machine, []⟩

def holding? (holder : Holder) (handle : Nat) : Option Holding := holder.holdings[handle]?.join

def library? (holder : Holder) (handle : Nat) : Option Library :=
  (holder.holding? handle).map Holding.library

def keep (holder : Holder) (handle : Nat) (holding : Option Holding) : Holder :=
  { holder with holdings := holder.holdings.set handle holding }

/-- Performs an operation, if ownership permits it. -/
def act (holder : Holder) : Operation → Option (Answer × Holder)
  | .load name =>
    match Library.load name holder.machine with
    | (.error failure, m) => some (.failed failure, { holder with machine := m })
    | (.ok library, m) =>
      some (.opened holder.holdings.length, ⟨m, holder.holdings ++ [some ⟨library, []⟩]⟩)
  | .function handle symbol =>
    (holder.holding? handle).map fun holding =>
      match holding.library.function symbol holder.machine with
      | (.error failure, m) => (.failed failure, { holder with machine := m })
      | (.ok function, m) =>
        (.found function,
          { holder with machine := m }.keep handle
            (some { holding with functions := function :: holding.functions }))
  | .call handle function =>
    (holder.holding? handle).bind fun holding =>
      if function ∈ holding.functions then
        let (result, m) := function.call holder.machine
        some (.returned result, { holder with machine := m })
      else none
  | .close handle =>
    (holder.holding? handle).map fun holding =>
      match holding.library.close holder.machine with
      | (.error failure, m) => (.failed failure, { holder with machine := m }.keep handle none)
      | (.ok (), m) => (.done, { holder with machine := m }.keep handle none)
  | .drop handle =>
    (holder.holding? handle).map fun holding =>
      (.done, { holder with machine := holding.library.drop holder.machine }.keep handle none)

end Holder
end LoaderBench.Loader
