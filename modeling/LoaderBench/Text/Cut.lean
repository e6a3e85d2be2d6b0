import LoaderBench.Text.Utf8

/-!
# Cutting byte strings

A byte string cut into pieces of one length, the last of which may be shorter. Put together again the
pieces are the whole.
-/

namespace LoaderBench

/-- Pieces of `length` bytes, and what is left. A length of zero counts as one. -/
def cut (length : Nat) (bytes : Bytes) : List Bytes :=
  if bytes = [] then []
  else bytes.take (max length 1) :: cut length (bytes.drop (max length 1))
termination_by bytes.length
decreasing_by
  rename_i h
  have := List.length_pos_iff.mpr h
  simp only [List.length_drop]
  omega

theorem cut_nil (length : Nat) : cut length [] = [] := by
  unfold cut
  simp

theorem cut_of_ne_nil (length : Nat) {bytes : Bytes} (h : bytes ≠ []) :
    cut length bytes = bytes.take (max length 1) :: cut length (bytes.drop (max length 1)) := by
  rw [cut]
  simp [h]

theorem flatten_cut (length : Nat) (bytes : Bytes) : (cut length bytes).flatten = bytes := by
  fun_induction cut length bytes with
  | case1 => simp
  | case2 bytes h ih => simp [ih]

end LoaderBench
