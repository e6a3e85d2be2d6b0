import LoaderBench.Loader.Library

/-!
# A shelf of open libraries

Programs hold any number of libraries at once. A shelf has numbered places; each holds one open
library at most. Requests on places are answered one after another, so a list of requests is a whole
history of a program.
-/

namespace LoaderBench.Loader

structure Shelf where
  machine : Machine
  places : List (Nat × Library)

inductive Request where
  | load (place : Nat) (name : Bytes)
  | function (place : Nat) (symbol : Bytes) (calls : Nat)
  | close (place : Nat)
  | drop (place : Nat)
  deriving DecidableEq

inductive Reply where
  | done
  | results (numbers : List Int32)
  | failed (failure : Failure)
  | empty
  deriving DecidableEq

namespace Shelf

def library? (shelf : Shelf) (place : Nat) : Option Library := shelf.places.lookup place

/-- The libraries without the one at a place. -/
def without (places : List (Nat × Library)) (place : Nat) : List (Nat × Library) :=
  places.filter (·.1 != place)

/-- Answers a request. Loading into a place that is taken closes the library that stood there, once
the new one is open. -/
def answer (shelf : Shelf) : Request → Reply × Shelf
  | .load place name =>
    match Library.load name shelf.machine with
    | (.error failure, m) => (.failed failure, { shelf with machine := m })
    | (.ok library, m) =>
      let m :=
        match shelf.library? place with
        | some old => (old.close m).2
        | none => m
      (.done, ⟨m, (place, library) :: without shelf.places place⟩)
  | .function place symbol calls =>
    match shelf.library? place with
    | none => (.empty, shelf)
    | some library =>
      match library.function symbol shelf.machine with
      | (.error failure, m) => (.failed failure, { shelf with machine := m })
      | (.ok function, m) =>
        let (numbers, m) := function.callMany calls m
        (.results numbers, { shelf with machine := m })
  | .close place =>
    match shelf.library? place with
    | none => (.empty, shelf)
    | some library =>
      let places := without shelf.places place
      match library.close shelf.machine with
      | (.ok (), m) => (.done, ⟨m, places⟩)
      | (.error failure, m) => (.failed failure, ⟨m, places⟩)
  | .drop place =>
    match shelf.library? place with
    | none => (.empty, shelf)
    | some library => (.done, ⟨library.drop shelf.machine, without shelf.places place⟩)

def answerAll (shelf : Shelf) : List Request → List Reply × Shelf
  | [] => ([], shelf)
  | request :: requests =>
    let (reply, shelf) := shelf.answer request
    let (replies, shelf) := shelf.answerAll requests
    (reply :: replies, shelf)

end Shelf
end LoaderBench.Loader
