import LoaderBench.Staging.Storage

/-!
# A file read bit by bit

The summary of a file as it is taken, read after read. Each read puts its bytes at the front of a buffer
that is used for all of them, and as many bytes of the buffer as were read are hashed and counted. The
count is a word of 64 bits. A read that gives more than the buffer holds, and a count that no longer
fits, have no result. A read that gives nothing is the last.
-/

namespace LoaderBench.Staging

open LoaderBench.Text

structure Intake where
  buffer : Bytes
  hasher : Hasher
  size : UInt64

namespace Intake

def start : Intake := ⟨List.replicate readLength 0, .new, 0⟩

/-- A count with more bytes, if a word of 64 bits holds it. -/
def counted? (size : UInt64) (more : Nat) : Option UInt64 :=
  if size.toNat + more < 0x10000000000000000 then some (size + .ofNat more) else none

/-- Takes the bytes of a read. Behind them the buffer keeps what earlier reads have put there. -/
def take? (intake : Intake) (bytes : Bytes) : Option Intake :=
  if bytes.length ≤ intake.buffer.length then do
    let buffer := bytes ++ intake.buffer.drop bytes.length
    let size ← counted? intake.size bytes.length
    some ⟨buffer, intake.hasher.update (buffer.take bytes.length), size⟩
  else none

/-- Takes one read after another, up to the first that gives nothing. -/
def run? (intake : Intake) : List Bytes → Option Summary
  | [] => none
  | bytes :: reads =>
    if bytes = [] then some ⟨hexText intake.hasher.finish, intake.size⟩
    else do
      let next ← intake.take? bytes
      next.run? reads

end Intake
end LoaderBench.Staging
