import LoaderBench.Digest.Sha256
import Mathlib.Data.List.GetD

/-!
# What the digest is made of

The padding is the shortest that fills a block and leaves room for the length. The words of a block
follow their recurrence. The constants are what they are said to be: the first bits of the fractions of
the roots of the first primes.
-/

namespace LoaderBench.Sha256

/-! ### Padding -/

/-- The zeros of a padding are as few as they can be. -/
theorem padding_eq (length : Nat) :
    ∃ zeros, padding length = 0x80 :: List.replicate zeros 0 ++ lengthBytes length ∧
      (length + 1 + zeros) % blockLength = blockLength - 8 ∧
      ∀ fewer < zeros, (length + 1 + fewer) % blockLength ≠ blockLength - 8 := by
  refine ⟨(119 - length % blockLength) % blockLength, rfl, ?_, fun fewer hfewer => ?_⟩
  · unfold blockLength
    omega
  · unfold blockLength at hfewer ⊢
    omega

/-! ### The words of a block -/

theorem length_wordsOf {n : Nat} {bytes : Bytes} (h : bytes.length = 4 * n) :
    (wordsOf bytes).length = n := by
  induction n generalizing bytes with
  | zero =>
    rw [List.eq_nil_of_length_eq_zero h]
    rfl
  | succ n ih =>
    match bytes, h with
    | a :: b :: c :: d :: rest, h =>
      simp only [List.length_cons] at h
      rw [wordsOf, List.length_cons, ih (by omega)]

theorem length_shifted {window : List UInt32} (h : window.length = 16) (word : UInt32) :
    (window.tail ++ [word]).length = 16 := by
  rw [List.length_append, List.length_tail, h, List.length_singleton]

theorem expand_succ (n : Nat) {window : List UInt32} (t : Nat) :
    (expand (n + 1) window).getD (t + 1) 0 =
      (expand n (window.tail ++ [nextWord window])).getD t 0 := rfl

/-- The first words are those of the window. -/
theorem expand_window (n : Nat) {window : List UInt32} (h : window.length = 16) {t : Nat}
    (ht : t < 16) : (expand n window).getD t 0 = window.getD t 0 := by
  induction n generalizing window t with
  | zero => rfl
  | succ n ih =>
    match window, h with
    | word :: rest, h =>
      cases t with
      | zero => rfl
      | succ t =>
        have hrest : rest.length = 15 := Nat.succ.inj h
        rw [expand_succ, ih (length_shifted h _) (by omega), List.tail_cons, List.getD_cons_succ,
          List.getD_append _ _ _ _ (by omega)]

/-- Each further word is made from four of the sixteen before it. -/
theorem expand_next {n : Nat} {window : List UInt32} (h : window.length = 16) {t : Nat} (ht : t < n) :
    (expand n window).getD (t + 16) 0 =
      spread1 ((expand n window).getD (t + 14) 0) + (expand n window).getD (t + 9) 0 +
        spread0 ((expand n window).getD (t + 1) 0) + (expand n window).getD t 0 := by
  induction n generalizing window t with
  | zero => exact absurd ht (Nat.not_lt_zero t)
  | succ n ih =>
    have hshifted := length_shifted h (nextWord window)
    cases t with
    | zero =>
      have hlast : (window.tail ++ [nextWord window]).getD 15 0 = nextWord window := by
        have htail : window.tail.length = 15 := by rw [List.length_tail, h]
        rw [List.getD_append_right _ _ _ _ (by omega), htail]
        rfl
      rw [expand_succ n 15, expand_window n hshifted (by omega), hlast, nextWord,
        expand_window (n + 1) h (by omega), expand_window (n + 1) h (by omega),
        expand_window (n + 1) h (by omega), expand_window (n + 1) h (by omega)]
    | succ t =>
      have hnext := ih hshifted (Nat.lt_of_succ_lt_succ ht)
      rw [← expand_succ n (t + 16), ← expand_succ n (t + 14), ← expand_succ n (t + 9),
        ← expand_succ n (t + 1), ← expand_succ n t] at hnext
      exact hnext

/-- The words of a block: sixteen are its own, and the others follow the recurrence. -/
theorem schedule_recurrence {block : Bytes} (h : block.length = blockLength) :
    (∀ t < 16, (schedule block).getD t 0 = (wordsOf block).getD t 0) ∧
      ∀ t, 16 ≤ t → t < roundCount → (schedule block).getD t 0 =
        spread1 ((schedule block).getD (t - 2) 0) + (schedule block).getD (t - 7) 0 +
          spread0 ((schedule block).getD (t - 15) 0) + (schedule block).getD (t - 16) 0 := by
  have hwords : (wordsOf block).length = 16 := length_wordsOf h
  refine ⟨fun t ht => expand_window _ hwords ht, fun t hlow hhigh => ?_⟩
  obtain ⟨s, rfl⟩ := Nat.exists_eq_add_of_le' hlow
  exact expand_next hwords (Nat.lt_sub_of_add_lt hhigh)

/-! ### Constants -/

def primesBelow (n : Nat) : List Nat :=
  (List.range n).filter fun p => 2 ≤ p && (List.range p).all fun d => d < 2 || p % d != 0

/-- Whether a word has the first bits of the fraction of a root of `n`. -/
def IsFraction (power n : Nat) (word : UInt32) : Prop :=
  ∃ whole ∈ List.range n,
    Nat.pow (whole * 0x100000000 + word.toNat) power ≤ n * Nat.pow 0x100000000 power ∧
      n * Nat.pow 0x100000000 power < Nat.pow (whole * 0x100000000 + word.toNat + 1) power

instance (power n : Nat) (word : UInt32) : Decidable (IsFraction power n word) :=
  inferInstanceAs (Decidable (∃ whole ∈ List.range n, _))

theorem roundConstants_fractions :
    roundConstants.length = roundCount ∧
      ∀ p ∈ (primesBelow 312).zip roundConstants, IsFraction 3 p.1 p.2 := by decide +kernel

theorem start_fractions :
    ∀ p ∈ (primesBelow 20).zip
        [Registers.start.a, Registers.start.b, Registers.start.c, Registers.start.d,
          Registers.start.e, Registers.start.f, Registers.start.g, Registers.start.h],
      IsFraction 2 p.1 p.2 := by decide +kernel

end LoaderBench.Sha256
