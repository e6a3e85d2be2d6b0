import LoaderBench.Log.Emitter

/-!
# Uses of an emitter

What a program does with an emitter: it starts records, and it has records written, in any order and as
often as it likes. Records are counted in a word of 64 bits. A record whose number does not fit is not
started, and the uses it is one of have no result.
-/

namespace LoaderBench.Log

open LoaderBench.Time

inductive Use where
  | entry (now : Moment) (level : Level) (event : String)
  | emit (record : Entry)

def Use.starts : Use → Bool
  | .entry _ _ _ => true
  | .emit _ => false

namespace Emitter

/-- The records that a use starts, and the emitter after it. It is used further after a write that has
failed. -/
def use? (emitter : Emitter) : Use → Option (List Entry × Emitter)
  | .entry now level event =>
    if emitter.count + 1 < 0x10000000000000000 then
      let (record, after) := emitter.entry now level event
      some ([record], after)
    else none
  | .emit record => some ([], (emitter.emit record).2)

def useAll? (emitter : Emitter) : List Use → Option (List Entry × Emitter)
  | [] => some ([], emitter)
  | use :: uses => do
    let (first, mid) ← emitter.use? use
    let (rest, after) ← mid.useAll? uses
    some (first ++ rest, after)

end Emitter
end LoaderBench.Log
