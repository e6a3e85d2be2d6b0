import LoaderBench.Digest.Hasher

/-!
# Digests of streams are digests of wholes

A hasher that has taken a message holds the registers after its full blocks, whatever the pieces in
which the message came. So the digest at the end is that of the whole message.
-/

namespace LoaderBench

open LoaderBench.Sha256

namespace Hasher

theorem update_cons (hasher : Hasher) (b : UInt8) (bytes : Bytes) :
    hasher.update (b :: bytes) = (hasher.push b).update bytes := rfl

/-- Bytes that fill whole blocks with those that were left before are mixed in block by block. -/
theorem registers_update (hasher : Hasher) (bytes : Bytes)
    (hpartial : hasher.partialBlock.length < blockLength)
    (hwhole : (hasher.partialBlock.length + bytes.length) % blockLength = 0) :
    (hasher.update bytes).registers =
      (blocks (hasher.partialBlock ++ bytes)).foldl Registers.compress hasher.registers := by
  unfold blockLength at hpartial hwhole
  induction bytes generalizing hasher with
  | nil =>
    have hnone : hasher.partialBlock = [] := by
      apply List.eq_nil_of_length_eq_zero
      rw [List.length_nil] at hwhole
      omega
    rw [hnone, List.append_nil, blocks, cut_nil]
    rfl
  | cons b bytes ih =>
    rw [List.length_cons] at hwhole
    have hsplit : hasher.partialBlock ++ b :: bytes = hasher.partialBlock ++ [b] ++ bytes := by
      rw [List.append_assoc, List.singleton_append]
    have hlength : (hasher.partialBlock ++ [b]).length = hasher.partialBlock.length + 1 := by
      rw [List.length_append, List.length_singleton]
    rw [update_cons, hsplit]
    by_cases hfull : (hasher.partialBlock ++ [b]).length = blockLength
    · have hpush : hasher.push b =
          ⟨hasher.registers.compress (hasher.partialBlock ++ [b]), [], hasher.length + 1⟩ := by
        rw [push, if_pos hfull]
      have hne : hasher.partialBlock ++ [b] ++ bytes ≠ [] := by
        intro hnil
        exact List.cons_ne_nil b [] (List.append_eq_nil_iff.mp (List.append_eq_nil_iff.mp hnil).1).2
      have hmax : max blockLength 1 = (hasher.partialBlock ++ [b]).length := by
        rw [hfull]
        rfl
      unfold blockLength at hfull
      rw [ih (hasher.push b) (by rw [hpush, List.length_nil]; omega)
        (by rw [hpush, List.length_nil]; omega), hpush, blocks, blocks, cut_of_ne_nil _ hne, hmax,
        List.take_left, List.drop_left, List.nil_append, List.foldl_cons]
    · have hpush : hasher.push b =
          ⟨hasher.registers, hasher.partialBlock ++ [b], hasher.length + 1⟩ := by
        rw [push, if_neg hfull]
      have hleft : (hasher.push b).partialBlock.length = hasher.partialBlock.length + 1 := by
        rw [hpush]
        exact hlength
      unfold blockLength at hfull
      rw [ih (hasher.push b) (by omega) (by omega), hpush]

theorem finish_of_pieces (pieces : List Bytes) :
    (pieces.foldl update new).finish = digest pieces.flatten := by
  have hlength : (new.update pieces.flatten).length = pieces.flatten.length := by
    rw [length_update]
    exact Nat.zero_add _
  have hpadded := length_padding pieces.flatten.length
  have hregisters := registers_update new (pieces.flatten ++ padding pieces.flatten.length)
    (Nat.zero_lt_succ _) (by
      rw [List.length_append]
      show (0 + _) % blockLength = 0
      rw [Nat.zero_add]
      exact hpadded)
  rw [update_flatten, finish, hlength, ← update_append, hregisters]
  rfl

end Hasher

end LoaderBench
