import LoaderBench.Digest.Sha256

/-!
# Digests of streams

A hasher takes a message piece by piece and keeps no more of it than a block that is not yet full.
However the message is cut into pieces, the digest is that of the whole.
-/

namespace LoaderBench

open LoaderBench.Sha256

/-- The digest of a message under way: the registers after the full blocks, the bytes since then, and
the number of all bytes. -/
structure Hasher where
  registers : Registers
  partialBlock : Bytes
  length : Nat

namespace Hasher

def new : Hasher := ⟨.start, [], 0⟩

def push (hasher : Hasher) (byte : UInt8) : Hasher :=
  let block := hasher.partialBlock ++ [byte]
  if block.length = blockLength then ⟨hasher.registers.compress block, [], hasher.length + 1⟩
  else ⟨hasher.registers, block, hasher.length + 1⟩

def update (hasher : Hasher) (piece : Bytes) : Hasher := piece.foldl push hasher

def finish (hasher : Hasher) : Bytes :=
  (hasher.update (padding hasher.length)).registers.bytes

theorem update_append (hasher : Hasher) (a b : Bytes) :
    hasher.update (a ++ b) = (hasher.update a).update b := by
  simp [update]

theorem update_flatten (hasher : Hasher) (pieces : List Bytes) :
    pieces.foldl update hasher = hasher.update pieces.flatten := by
  induction pieces generalizing hasher with
  | nil => simp [update]
  | cons piece pieces ih => simp [ih, update_append]

theorem length_update (hasher : Hasher) (piece : Bytes) :
    (hasher.update piece).length = hasher.length + piece.length := by
  induction piece generalizing hasher with
  | nil => simp [update]
  | cons b piece ih =>
    have h : (hasher.push b).length = hasher.length + 1 := by
      simp only [push]
      split <;> rfl
    have hu : hasher.update (b :: piece) = (hasher.push b).update piece := rfl
    rw [hu, ih, h, List.length_cons]
    omega

end Hasher
end LoaderBench
