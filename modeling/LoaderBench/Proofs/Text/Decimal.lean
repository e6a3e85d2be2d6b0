import LoaderBench.Proofs.Text.Front
import LoaderBench.Text.Decimal

/-!
# Digits

What the decimal digits of a number look like: there is one at least, all of them are digits, and the
first is zero only where it stands alone. Digits of that form are those of the number they stand for.
Where a text begins with a number, the number and what follows it are found again.
-/

namespace LoaderBench.Text

theorem digits_ne_nil (n : Nat) : digits n ≠ [] := Nat.toDigits_ne_nil

theorem isDigit_of_mem_digits {n : Nat} {c : Char} (h : c ∈ digits n) : c.isDigit = true :=
  Nat.isDigit_of_mem_toDigits (by decide) (by decide) h

theorem ne_of_isDigit {c d : Char} (hc : c.isDigit = true) (hd : d.isDigit = false) : c ≠ d := by
  rintro rfl
  rw [hd] at hc
  cases hc

theorem ofDigitChars_digits (n : Nat) : Nat.ofDigitChars 10 (digits n) 0 = n :=
  Nat.ofDigitChars_ten_toDigits

theorem digits_zero : digits 0 = ['0'] := by decide

/-- The digits of a positive number begin with one that is not zero. -/
theorem digits_cons {n : Nat} (h : 0 < n) : ∃ c cs, digits n = c :: cs ∧ c ≠ '0' := by
  induction n using Nat.base_induction 10 (by decide) with
  | single m hm =>
    have hall : ∀ m < 10, 0 < m → m.digitChar ≠ '0' := by decide
    exact ⟨m.digitChar, [], Nat.toDigits_of_lt_base hm, hall m hm h⟩
  | digit m k hk hm ih =>
    obtain ⟨c, cs, hd, hc⟩ := ih hm
    have happend : digits (10 * m + k) = digits m ++ Nat.toDigits 10 k :=
      (Nat.toDigits_append_toDigits (by decide) hm hk).symm
    exact ⟨c, cs ++ Nat.toDigits 10 k, by rw [happend, hd, List.cons_append], hc⟩

/-- Further digits make a number no smaller. -/
theorem le_ofDigitChars (cs : List Char) (n : Nat) : n ≤ Nat.ofDigitChars 10 cs n := by
  rw [Nat.ofDigitChars_eq_ofDigitChars_zero]
  have hpow : 0 < 10 ^ cs.length := Nat.pow_pos (by decide)
  have hmul : n ≤ 10 ^ cs.length * n := Nat.le_mul_of_pos_left n hpow
  omega

theorem toNat_of_isDigit {c : Char} (hc : c.isDigit = true) :
    c.toNat = 48 + digitValue c ∧ digitValue c < 10 := by
  have hdigit := Char.isDigit_iff_toNat.mp hc
  have hlow : 48 ≤ c.toNat := hdigit.1
  have hhigh : c.toNat ≤ 57 := hdigit.2
  have hvalue : digitValue c = c.toNat - 48 := rfl
  omega

theorem digitChar_digitValue {c : Char} (hc : c.isDigit = true) : (digitValue c).digitChar = c := by
  obtain ⟨hvalue, hlt⟩ := toNat_of_isDigit hc
  have hall : ∀ n < 10, (n.digitChar).toNat = 48 + n := by decide
  exact Char.toNat_inj.mp (by rw [hall _ hlt, hvalue])

/-- Digits that go on with those of a positive number are kept. -/
theorem digits_ofDigitChars {cs : List Char} (hcs : ∀ c ∈ cs, c.isDigit = true) {n : Nat}
    (hn : 0 < n) : digits (Nat.ofDigitChars 10 cs n) = digits n ++ cs := by
  induction cs generalizing n with
  | nil => exact (List.append_nil _).symm
  | cons c cs ih =>
    obtain ⟨hc, hcs⟩ := List.forall_mem_cons.mp hcs
    have hvalue := (toNat_of_isDigit hc).2
    have hdigits : digits (10 * n + digitValue c) = digits n ++ [c] := by
      rw [digits, ← Nat.toDigits_append_toDigits (by decide) hn hvalue,
        Nat.toDigits_of_lt_base hvalue, digitChar_digitValue hc, digits]
    have hnext : Nat.ofDigitChars 10 (c :: cs) n = Nat.ofDigitChars 10 cs (10 * n + digitValue c) :=
      Nat.ofDigitChars_cons
    rw [hnext, ih hcs (by omega), hdigits, List.append_assoc, List.singleton_append]

/-- Digits that do not begin with zero are those of their number. -/
theorem digits_of_cons {c : Char} {cs : List Char} (hcs : ∀ d ∈ c :: cs, d.isDigit = true)
    (hc : c ≠ '0') : digits (Nat.ofDigitChars 10 (c :: cs) 0) = c :: cs := by
  obtain ⟨hdigit, hcs⟩ := List.forall_mem_cons.mp hcs
  obtain ⟨hvalue, hlt⟩ := toNat_of_isDigit hdigit
  have hpos : 0 < digitValue c := by
    refine Nat.pos_of_ne_zero fun h0 => hc (Char.toNat_inj.mp ?_)
    rw [hvalue, h0]
    rfl
  have hnext : Nat.ofDigitChars 10 (c :: cs) 0 = Nat.ofDigitChars 10 cs (digitValue c) := by
    rw [Nat.ofDigitChars_cons, Nat.mul_zero, Nat.zero_add]
    rfl
  have hfirst : digits (digitValue c) = [c] := by
    rw [digits, Nat.toDigits_of_lt_base hlt, digitChar_digitValue hdigit]
  rw [hnext, digits_ofDigitChars hcs hpos, hfirst, List.singleton_append]

/-! ### Digits in front of a text -/

section

variable {cs ds xs ys : List Char}

theorem digits_append_inj (hcs : ∀ c ∈ cs, c.isDigit = true) (hds : ∀ d ∈ ds, d.isDigit = true)
    (hxs : ∀ c ∈ xs.head?, c.isDigit = false) (hys : ∀ c ∈ ys.head?, c.isDigit = false)
    (h : cs ++ xs = ds ++ ys) : cs = ds ∧ xs = ys := by
  have hrun := congrArg (List.takeWhile Char.isDigit) h
  rw [takeWhile_front hcs hxs, takeWhile_front hds hys] at hrun
  subst hrun
  exact ⟨rfl, List.append_cancel_left h⟩

end

/-! ### Signed numbers -/

theorem toList_signed (i : Int) :
    (signed i).toList = if i < 0 then '-' :: digits i.natAbs else digits i.natAbs :=
  String.toList_ofList

theorem sign_or_digit_of_mem_signed {i : Int} {c : Char} (h : c ∈ (signed i).toList) :
    c = '-' ∨ c.isDigit = true := by
  rw [toList_signed] at h
  split at h
  · exact (List.mem_cons.mp h).imp_right isDigit_of_mem_digits
  · exact .inr (isDigit_of_mem_digits h)

theorem plain_of_mem_signed {i : Int} {c : Char} (h : c ∈ (signed i).toList) :
    c ≠ '\n' ∧ c ≠ ' ' := by
  rcases sign_or_digit_of_mem_signed h with rfl | hdigit
  · decide
  · constructor
    · rintro rfl
      exact absurd hdigit (by decide)
    · rintro rfl
      exact absurd hdigit (by decide)

/-- Equal digits are those of equal numbers. -/
theorem digits_inj {m n : Nat} (h : digits m = digits n) : m = n := by
  rw [← ofDigitChars_digits m, h, ofDigitChars_digits]

/-- A signed number in front of a text is found by where its digits end. -/
theorem signed_append_inj {i j : Int} {xs ys : List Char} (hxs : ∀ c ∈ xs.head?, c.isDigit = false)
    (hys : ∀ c ∈ ys.head?, c.isDigit = false)
    (h : (signed i).toList ++ xs = (signed j).toList ++ ys) : i = j ∧ xs = ys := by
  have hdigits (m n : Nat) (hmn : digits m ++ xs = digits n ++ ys) : m = n ∧ xs = ys := by
    obtain ⟨hsame, hrest⟩ := digits_append_inj (fun _ hc => isDigit_of_mem_digits hc)
      (fun _ hc => isDigit_of_mem_digits hc) hxs hys hmn
    exact ⟨digits_inj hsame, hrest⟩
  -- The first character is a digit exactly where there is no sign.
  have hsign (m n : Nat) (us vs : List Char) : '-' :: digits m ++ us ≠ digits n ++ vs := by
    intro hmn
    cases hd : digits n with
    | nil => exact digits_ne_nil n hd
    | cons d ds =>
      have hdigit : d.isDigit = true := isDigit_of_mem_digits (n := n) (by simp [hd])
      rw [hd] at hmn
      obtain ⟨rfl, -⟩ := List.cons.inj hmn
      exact absurd hdigit (by decide)
  rw [toList_signed, toList_signed] at h
  by_cases hi : i < 0
  · by_cases hj : j < 0
    · rw [if_pos hi, if_pos hj] at h
      obtain ⟨habs, hrest⟩ := hdigits _ _ (List.cons.inj h).2
      exact ⟨by omega, hrest⟩
    · rw [if_pos hi, if_neg hj] at h
      exact absurd h (hsign _ _ _ _)
  · by_cases hj : j < 0
    · rw [if_neg hi, if_pos hj] at h
      exact absurd h.symm (hsign _ _ _ _)
    · rw [if_neg hi, if_neg hj] at h
      obtain ⟨habs, hrest⟩ := hdigits _ _ h
      exact ⟨by omega, hrest⟩

end LoaderBench.Text
