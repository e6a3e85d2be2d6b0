import LoaderBench.Proofs.Text.Decimal
import Mathlib.Algebra.Group.Nat.Defs

/-!
# Numbers filled up with zeros

A field shows a number in a least number of digits: zeros fill it up, and it is longer only where the
number needs more digits. Fields of one width sort like their numbers, whatever follows them. A field
ends where the first character stands that is no digit.
-/

namespace LoaderBench.Text

variable {width m n : Nat} {sep : Char} {cs ds xs ys : List Char}

/-! ### Values of digits -/

theorem ofDigitChars_cons_zero (c : Char) (cs : List Char) : Nat.ofDigitChars 10 (c :: cs) 0 =
    10 ^ cs.length * digitValue c + Nat.ofDigitChars 10 cs 0 := by
  rw [Nat.ofDigitChars_cons, Nat.mul_zero, Nat.zero_add, Nat.ofDigitChars_eq_ofDigitChars_zero]
  rfl

theorem ofDigitChars_lt (h : ∀ c ∈ cs, c.isDigit = true) :
    Nat.ofDigitChars 10 cs 0 < 10 ^ cs.length := by
  induction cs with
  | nil => decide
  | cons c cs ih =>
    obtain ⟨hc, hcs⟩ := List.forall_mem_cons.mp h
    have hrest := ih hcs
    have hfirst : 10 ^ cs.length * digitValue c ≤ 10 ^ cs.length * 9 :=
      Nat.mul_le_mul_left _ (Nat.le_of_lt_succ (toNat_of_isDigit hc).2)
    rw [ofDigitChars_cons_zero, List.length_cons, Nat.pow_succ]
    omega

/-- Of as many digits, those of the smaller number come first. -/
theorem append_lt_of_ofDigitChars_lt (hcs : ∀ c ∈ cs, c.isDigit = true)
    (hds : ∀ d ∈ ds, d.isDigit = true) (hlength : cs.length = ds.length)
    (h : Nat.ofDigitChars 10 cs 0 < Nat.ofDigitChars 10 ds 0) : cs ++ xs < ds ++ ys := by
  induction cs generalizing ds with
  | nil =>
    obtain rfl := List.length_eq_zero_iff.mp hlength.symm
    exact absurd h (Nat.lt_irrefl _)
  | cons c cs ih =>
    cases ds with
    | nil => cases hlength
    | cons d ds =>
      obtain ⟨hc, hcs'⟩ := List.forall_mem_cons.mp hcs
      obtain ⟨hd, hds'⟩ := List.forall_mem_cons.mp hds
      have hrest : cs.length = ds.length := Nat.succ.inj hlength
      rw [ofDigitChars_cons_zero, ofDigitChars_cons_zero, hrest] at h
      have hcode := (toNat_of_isDigit hc).1
      have hcode' := (toNat_of_isDigit hd).1
      refine List.cons_lt_cons_iff.mpr ?_
      rcases Nat.lt_trichotomy (digitValue c) (digitValue d) with hlt | heq | hgt
      · have hbefore : c.toNat < d.toNat := by omega
        exact .inl hbefore
      · obtain rfl : c = d := Char.toNat_inj.mp (by omega)
        exact .inr ⟨rfl, ih hcs' hds' hrest (Nat.lt_of_add_lt_add_left h)⟩
      · -- The rest of the first text cannot make up for a larger digit.
        have hmul : 10 ^ ds.length * (digitValue d + 1) ≤ 10 ^ ds.length * digitValue c :=
          Nat.mul_le_mul_left _ hgt
        have hbound := ofDigitChars_lt hds'
        rw [Nat.mul_succ] at hmul
        omega

/-! ### Fields -/

/-- The digits of a number, filled up with zeros to a least width. -/
structure Filled (width n : Nat) (cs : List Char) : Prop where
  isDigit : ∀ c ∈ cs, c.isDigit = true
  value : Nat.ofDigitChars 10 cs 0 = n
  width_le : width ≤ cs.length
  head_ne_zero : width < cs.length → cs.head? ≠ some '0'

theorem Filled.length_eq (h : Filled width n cs) (hn : n < 10 ^ width) : cs.length = width := by
  refine Nat.le_antisymm (Nat.le_of_not_lt fun hlong => ?_) h.width_le
  have hhead := h.head_ne_zero hlong
  have hvalue := h.value
  cases cs with
  | nil => exact Nat.not_lt_zero _ hlong
  | cons c cs =>
    have hdigit := (toNat_of_isDigit (h.isDigit c List.mem_cons_self)).1
    have hpos : 0 < digitValue c := by
      refine Nat.pos_of_ne_zero fun hzero => hhead ?_
      rw [hzero] at hdigit
      exact congrArg some (Char.toNat_inj.mp hdigit)
    have hpow : 10 ^ width ≤ 10 ^ cs.length := Nat.pow_le_pow_right (by decide) (Nat.le_of_lt_succ hlong)
    have hmul : 10 ^ cs.length ≤ 10 ^ cs.length * digitValue c := Nat.le_mul_of_pos_right _ hpos
    rw [ofDigitChars_cons_zero] at hvalue
    omega

theorem toList_padded (width n : Nat) : (padded width n).toList =
    List.replicate (width - (digits n).length) '0' ++ digits n := String.toList_ofList

theorem filled_padded (n : Nat) (hwidth : 0 < width) : Filled width n (padded width n).toList := by
  rw [toList_padded]
  constructor
  case isDigit =>
    intro c hc
    rcases List.mem_append.mp hc with hzero | hdigit
    · rw [List.eq_of_mem_replicate hzero]
      rfl
    · exact isDigit_of_mem_digits hdigit
  case value =>
    rw [Nat.ofDigitChars_append, Nat.ofDigitChars_replicate_zero, Nat.mul_zero, ofDigitChars_digits]
  case width_le =>
    rw [List.length_append, List.length_replicate]
    omega
  case head_ne_zero =>
    rw [List.length_append, List.length_replicate]
    intro hlong
    have hnone : width - (digits n).length = 0 := by omega
    have hpos : 0 < n := by
      refine Nat.pos_of_ne_zero ?_
      rintro rfl
      rw [digits_zero, List.length_singleton] at hlong
      omega
    obtain ⟨c, cs, hdigits, hc⟩ := digits_cons hpos
    rw [hnone, hdigits]
    exact fun h => hc (Option.some.inj h)

theorem length_padded (hwidth : 0 < width) (hn : n < 10 ^ width) :
    (padded width n).toList.length = width := (filled_padded n hwidth).length_eq hn

theorem ascii_padded {c : Char} (hwidth : 0 < width) (hc : c ∈ (padded width n).toList) :
    c.toNat < 0x80 := by
  have hdigit := toNat_of_isDigit ((filled_padded n hwidth).isDigit c hc)
  omega

/-- Fields come in the order of their numbers. Behind equal ones the rest decides. -/
theorem padded_append_lt (hwidth : 0 < width) (hn : n < 10 ^ width) (h : m < n ∨ m = n ∧ xs < ys) :
    (padded width m).toList ++ sep :: xs < (padded width n).toList ++ sep :: ys := by
  rcases h with hlt | ⟨rfl, hrest⟩
  · have hm := filled_padded m hwidth
    have hn' := filled_padded n hwidth
    refine append_lt_of_ofDigitChars_lt hm.isDigit hn'.isDigit ?_ ?_
    · rw [length_padded hwidth (Nat.lt_trans hlt hn), length_padded hwidth hn]
    · rwa [hm.value, hn'.value]
  · exact List.append_left_lt (List.cons_lt_cons_iff.mpr (.inr ⟨rfl, hrest⟩))

theorem padded_append_inj (hwidth : 0 < width) (hsep : sep.isDigit = false)
    (h : (padded width m).toList ++ sep :: xs = (padded width n).toList ++ sep :: ys) :
    m = n ∧ xs = ys := by
  have hm := filled_padded m hwidth
  have hn := filled_padded n hwidth
  have hhead (zs : List Char) : ∀ c ∈ (sep :: zs).head?, c.isDigit = false := by
    intro c hc
    cases hc
    exact hsep
  obtain ⟨hdigits, hrest⟩ := digits_append_inj hm.isDigit hn.isDigit (hhead xs) (hhead ys) h
  exact ⟨by rw [← hm.value, hdigits, hn.value], (List.cons.inj hrest).2⟩

end LoaderBench.Text
