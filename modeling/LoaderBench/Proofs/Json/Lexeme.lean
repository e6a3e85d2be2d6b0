import LoaderBench.Json.Printer
import LoaderBench.Json.Reader
import LoaderBench.Proofs.Json.Grammar

/-!
# Scalars are read back

A text is read from any of its spellings, of which the printed one is a case, and the reader undoes the
printer on whole numbers and words as well. What follows does not matter, but that after a number it must
not go on with it. Strings go character by character: each is read from its escape, and the rest of the
string is read as if the character were not there.
-/

namespace LoaderBench.Json

open LoaderBench.Text

/-! ### Strings -/

/-- A character is escaped by a letter of its own, or as a control character, or not at all. -/
theorem escaped_cases (c : Char) :
    (∃ d, shortEscapes.lookup d = some c ∧ escaped c = ['\\', d]) ∨
      (c < ' ' ∧ escaped c = '\\' :: 'u' :: controlDigits c) ∨
      (c ≠ '"' ∧ c ≠ '\\' ∧ ¬ c < ' ' ∧ escaped c = [c]) := by
  by_cases hshort : c ∈ ['"', '\\', '\x08', '\x0C', '\n', '\r', '\t']
  · simp only [List.mem_cons, List.not_mem_nil, or_false] at hshort
    rcases hshort with rfl | rfl | rfl | rfl | rfl | rfl | rfl
    · exact .inl ⟨'"', by decide, by decide⟩
    · exact .inl ⟨'\\', by decide, by decide⟩
    · exact .inl ⟨'b', by decide, by decide⟩
    · exact .inl ⟨'f', by decide, by decide⟩
    · exact .inl ⟨'n', by decide, by decide⟩
    · exact .inl ⟨'r', by decide, by decide⟩
    · exact .inl ⟨'t', by decide, by decide⟩
  · simp only [List.mem_cons, List.not_mem_nil, or_false, not_or] at hshort
    obtain ⟨hquote, hslash, hb, hf, hn, hr, ht⟩ := hshort
    by_cases hc : c < ' '
    · exact .inr (.inl ⟨hc, by simp [escaped, hquote, hslash, hb, hf, hn, hr, ht, hc]⟩)
    · exact .inr (.inr ⟨hquote, hslash, hc, by
        simp [escaped, hquote, hslash, hb, hf, hn, hr, ht, hc]⟩)

theorem controlDigits_eq {c : Char} (hc : c < ' ') :
    controlDigits c = ['0', '0', (c.toNat / 16).digitChar, (c.toNat % 16).digitChar] := by
  have hall : ∀ n < 32, (Nat.toDigits 16 n).leftpad 4 '0' =
      ['0', '0', (n / 16).digitChar, (n % 16).digitChar] := by decide
  exact hall c.toNat hc

theorem hexDigit_digitChar {n : Nat} (hn : n < 16) : hexDigit n.digitChar = some n := by
  have hall : ∀ n < 16, hexDigit n.digitChar = some n := by decide
  exact hall n hn

theorem codeUnit?_controlDigits {c : Char} (hc : c < ' ') :
    codeUnit? (controlDigits c) = some c.toNat := by
  have hn : c.toNat < 32 := hc
  have hzero : hexDigit '0' = some 0 := by decide
  have hu : hexDigit (c.toNat / 16).digitChar = some (c.toNat / 16) := hexDigit_digitChar (by omega)
  have hv : hexDigit (c.toNat % 16).digitChar = some (c.toNat % 16) := hexDigit_digitChar (by omega)
  have hvalue : ((0 * 16 + 0) * 16 + c.toNat / 16) * 16 + c.toNat % 16 = c.toNat := by omega
  simp only [controlDigits_eq hc, codeUnit?, hzero, hu, hv, bind, Option.bind, hvalue]

theorem codeUnit?_eq_some {ds : Input} {n : Nat} (h : codeUnit? ds = some n) (rest : Input) :
    ∃ a b c d, ds = [a, b, c, d] ∧ hexEscape (ds ++ rest) = .ok (n, rest) := by
  unfold codeUnit? at h
  split at h
  · rename_i a b c d
    refine ⟨a, b, c, d, rfl, ?_⟩
    obtain ⟨na, ha, h⟩ := Option.bind_eq_some_iff.mp h
    obtain ⟨nb, hb, h⟩ := Option.bind_eq_some_iff.mp h
    obtain ⟨nc, hc, h⟩ := Option.bind_eq_some_iff.mp h
    obtain ⟨nd, hd, h⟩ := Option.bind_eq_some_iff.mp h
    rw [← Option.some.inj h]
    simp only [List.cons_append, List.nil_append, hexEscape, ha, hb, hc, hd]
  · cases h

theorem escape_unit {c : Char} {ds : Input} (h : codeUnit? ds = some c.toNat) (rest : Input) :
    escape ('u' :: (ds ++ rest)) = .ok (c, 5) := by
  obtain ⟨-, -, -, -, -, hhex⟩ := codeUnit?_eq_some h rest
  have hvalid : c.toNat.isValidChar := c.valid
  have hlow : isLowSurrogate c.toNat = false := by
    simp only [isLowSurrogate, Bool.and_eq_false_iff, decide_eq_false_iff_not]
    rcases hvalid with hvalid | hvalid <;> omega
  have hhigh : isHighSurrogate c.toNat = false := by
    simp only [isHighSurrogate, Bool.and_eq_false_iff, decide_eq_false_iff_not]
    rcases hvalid with hvalid | hvalid <;> omega
  simp only [escape, hhex]
  show (if isLowSurrogate c.toNat = true then _ else _) = _
  simp only [hlow, hhigh, Bool.false_eq_true, if_false, Char.ofNat_toNat]

theorem escape_pair {high low : Nat} {ds es : Input} (hhigh : isHighSurrogate high = true)
    (hlow : isLowSurrogate low = true) (hfirst : codeUnit? ds = some high)
    (hsecond : codeUnit? es = some low) (rest : Input) :
    escape ('u' :: (ds ++ '\\' :: 'u' :: (es ++ rest))) = .ok (pairedChar high low, 11) := by
  obtain ⟨-, -, -, -, -, hhex⟩ := codeUnit?_eq_some hfirst ('\\' :: 'u' :: (es ++ rest))
  obtain ⟨-, -, -, -, -, hhex'⟩ := codeUnit?_eq_some hsecond rest
  have hnot : isLowSurrogate high = false := by
    simp only [isHighSurrogate, Bool.and_eq_true, decide_eq_true_eq] at hhigh
    simp only [isLowSurrogate, Bool.and_eq_false_iff, decide_eq_false_iff_not]
    omega
  simp only [escape, hhex]
  show (if isLowSurrogate high = true then _ else _) = _
  simp only [hnot, Bool.false_eq_true, if_false, hhigh, if_true, lowEscape, hhex', bind, Except.bind,
    hlow]

/-- A character that was read before the rest of a string. -/
def before (c : Char) (r : Except Fault (List Char × Input)) : Except Fault (List Char × Input) :=
  r.map fun (cs, rest) => (c :: cs, rest)

theorem stringFrom_backslash {c : Char} {k : Nat} {s : Input} (h : escape s = .ok (c, k)) :
    stringFrom 0 ('\\' :: s) = before c (stringFrom k s) := by
  have hquote : '\\' ≠ '"' := by decide
  simp only [stringFrom, hquote, if_false, if_true, h]
  cases hs : stringFrom k s with
  | error f => simp [before, hs, Except.map, bind, Except.bind]
  | ok r => simp [before, hs, Except.map, bind, Except.bind]

theorem ne_u_of_short {c d : Char} (h : shortEscapes.lookup d = some c) : d ≠ 'u' := by
  rintro rfl
  have hnone : shortEscapes.lookup 'u' = none := by decide
  rw [hnone] at h
  cases h

theorem stringFrom_short {c d : Char} (h : shortEscapes.lookup d = some c) (s : Input) :
    stringFrom 0 ('\\' :: d :: s) = before c (stringFrom 0 s) := by
  have hu := ne_u_of_short h
  have he : escape (d :: s) = .ok (c, 1) := by
    simp only [escape, h]
  rw [stringFrom_backslash he]
  rfl

theorem stringFrom_plain {c : Char} (hquote : c ≠ '"') (hslash : c ≠ '\\') (hcontrol : ¬ c < ' ')
    (s : Input) : stringFrom 0 (c :: s) = before c (stringFrom 0 s) := by
  simp only [stringFrom, hquote, hslash, hcontrol, if_false]
  cases stringFrom 0 s <;> rfl

/-- The characters of a spelling are read, and then the rest of the string. -/
theorem Spells.stringFrom {cs : List Char} {w : Input} (h : Spells cs w) (s : Input) :
    stringFrom 0 (w ++ s) = cs.foldr before (Json.stringFrom 0 s) := by
  induction h with
  | nil => rfl
  | plain hquote hslash hcontrol _ ih =>
    rw [List.cons_append, stringFrom_plain hquote hslash hcontrol, ih]
    rfl
  | short hshort _ ih =>
    rw [List.cons_append, List.cons_append, stringFrom_short hshort, ih]
    rfl
  | @unit c cs ds w hunit _ ih =>
    have hescape := escape_unit hunit (w ++ s)
    obtain ⟨_, _, _, _, rfl, -⟩ := codeUnit?_eq_some hunit (w ++ s)
    rw [List.cons_append, List.cons_append, List.append_assoc, stringFrom_backslash hescape]
    show before c (Json.stringFrom 0 (w ++ s)) = _
    rw [ih]
    rfl
  | @pair high low cs ds es w hhigh hlow hfirst hsecond _ ih =>
    have hescape := escape_pair hhigh hlow hfirst hsecond (w ++ s)
    obtain ⟨_, _, _, _, rfl, -⟩ := codeUnit?_eq_some hfirst (w ++ s)
    obtain ⟨_, _, _, _, rfl, -⟩ := codeUnit?_eq_some hsecond (w ++ s)
    simp only [List.cons_append, List.nil_append] at hescape ⊢
    rw [stringFrom_backslash hescape]
    show before _ (Json.stringFrom 0 (w ++ s)) = _
    rw [ih]
    rfl

/-- A text is read from any of its spellings, up to the closing quote. -/
theorem Spells.string {t : String} {body : Input} (h : Spells t.toList body) (rest : Input) :
    string (body ++ '"' :: rest) = .ok (t, rest) := by
  have hall (cs : List Char) :
      cs.foldr before (Json.stringFrom 0 ('"' :: rest)) = .ok (cs, rest) := by
    induction cs with
    | nil => rfl
    | cons c cs ih =>
      rw [List.foldr_cons, ih]
      rfl
  simp only [Json.string, h.stringFrom, hall]
  show Except.ok (String.ofList t.toList, rest) = _
  rw [String.ofList_toList]

/-- What is printed for a character is one of the ways to spell it. -/
theorem Spells.escaped {cs : List Char} {w : Input} (h : Spells cs w) (c : Char) :
    Spells (c :: cs) (escaped c ++ w) := by
  rcases escaped_cases c with ⟨d, hd, he⟩ | ⟨hc, he⟩ | ⟨hquote, hslash, hc, he⟩
  · rw [he]
    exact .short hd h
  · rw [he]
    exact .unit (codeUnit?_controlDigits hc) h
  · rw [he]
    exact .plain hquote hslash hc h

theorem spells_escaped (cs : List Char) : Spells cs (cs.flatMap escaped) := by
  induction cs with
  | nil => exact .nil
  | cons c cs ih => exact ih.escaped c

theorem stringFrom_escaped (c : Char) (s : Input) :
    stringFrom 0 (escaped c ++ s) = before c (stringFrom 0 s) := by
  have hread := (Spells.nil.escaped c).stringFrom s
  rwa [List.append_nil] at hread

/-- A string is read back up to its closing quote. -/
theorem string_escaped (s : String) (rest : Input) :
    string (s.toList.flatMap escaped ++ '"' :: rest) = .ok (s, rest) :=
  (spells_escaped s.toList).string rest

/-! ### Numbers -/

theorem dropWhile_isDigit {s rest : Input} (h : Digits s)
    (hrest : ∀ c ∈ rest.head?, c.isDigit = false) :
    (s ++ rest).dropWhile Char.isDigit = rest := dropWhile_front h.2 hrest

theorem EndsNumber.head {rest : Input} (h : EndsNumber rest) : ∀ c ∈ rest.head?, c.isDigit = false :=
  fun c hc => (h c hc).1

theorem takeWhile_digits (n : Nat) {rest : Input} (h : EndsNumber rest) :
    (digits n ++ rest).takeWhile Char.isDigit = digits n :=
  takeWhile_front (fun _ hc => isDigit_of_mem_digits hc) h.head

theorem dropWhile_digits (n : Nat) {rest : Input} (h : EndsNumber rest) :
    (digits n ++ rest).dropWhile Char.isDigit = rest := dropWhile_isDigit (digits_digits n) h.head

/-- A significand that fits takes all of its digits. -/
theorem absorb_eq (cs : List Char) (n : Nat) (h : Nat.ofDigitChars 10 cs n < 0x10000000000000000) :
    absorb n cs = (Nat.ofDigitChars 10 cs n, cs.length) := by
  induction cs generalizing n with
  | nil => rfl
  | cons c cs ih =>
    have hnext : n * 10 + digitValue c = 10 * n + (c.toNat - '0'.toNat) := by
      rw [Nat.mul_comm]
      rfl
    rw [Nat.ofDigitChars_cons] at h ⊢
    have hle := le_ofDigitChars cs (10 * n + (c.toNat - '0'.toNat))
    simp only [absorb, hnext]
    rw [if_pos (by omega), ih _ h]
    rfl

theorem fraction_end (negative : Bool) (n : Nat) {rest : Input} (h : EndsNumber rest) :
    fraction negative n 0 rest = .ok (whole negative n, rest) := by
  cases rest with
  | nil => rfl
  | cons c rest =>
    obtain ⟨-, hpoint, he, hE⟩ := h c rfl
    simp [fraction, he, hE]

theorem number_digits (negative : Bool) {n : Nat} (hn : n < 0x10000000000000000) {rest : Input}
    (h : EndsNumber rest) : number negative (digits n ++ rest) = .ok (whole negative n, rest) := by
  by_cases h0 : n = 0
  · subst h0
    rw [digits_zero, List.singleton_append]
    cases rest with
    | nil => rfl
    | cons c rest =>
      have hc := (h c rfl).1
      simp only [number, if_true, hc, Bool.false_eq_true, if_false]
      exact fraction_end negative 0 h
  · obtain ⟨c, cs, hd, hc⟩ := digits_cons (Nat.pos_of_ne_zero h0)
    have hdigit : c.isDigit = true := isDigit_of_mem_digits (n := n) (by simp [hd])
    have htake := takeWhile_digits n h
    have hdrop := dropWhile_digits n h
    have habsorb := absorb_eq (digits n) 0 (by rwa [ofDigitChars_digits])
    rw [ofDigitChars_digits] at habsorb
    rw [hd] at htake hdrop habsorb ⊢
    rw [List.cons_append] at htake hdrop ⊢
    simp only [number, hc, hdigit, if_true, if_false, htake, hdrop, habsorb, Nat.sub_self]
    exact fraction_end negative n h

/-! ### Scalars -/

/-- The scalars that a text can give back: all but real numbers, and whole numbers in their range. -/
def Scalar.Readable : Scalar → Prop
  | .number (.integer i) => -0x8000000000000000 ≤ i ∧ i < 0x10000000000000000
  | .number (.real _) => False
  | _ => True

theorem scalar_of_isDigit {c : Char} (hc : c.isDigit = true) (s : Input) :
    scalar (c :: s) = number false (c :: s) >>= fun (n, rest) => .ok (.number n, rest) := by
  have hword : c ≠ 'n' ∧ c ≠ 't' ∧ c ≠ 'f' ∧ c ≠ '-' ∧ c ≠ '"' := by
    refine ⟨?_, ?_, ?_, ?_, ?_⟩ <;> exact ne_of_isDigit hc (by decide)
  obtain ⟨hn, ht, hf, hminus, hquote⟩ := hword
  simp [scalar, hc]

theorem scalar_digit {c : Char} (hc : c.isDigit = true) {s rest : Input} {n : Number}
    (h : number false (c :: s) = .ok (n, rest)) : scalar (c :: s) = .ok (.number n, rest) := by
  rw [scalar_of_isDigit hc, h]
  rfl

theorem whole_negative {i : Int} (hneg : i < 0) (hsize : -0x8000000000000000 ≤ i) :
    whole true i.natAbs = .integer i := by
  have hcond : ¬ (i.natAbs = 0 ∨ 0x8000000000000000 < i.natAbs) := by omega
  have hvalue : -(i.natAbs : Int) = i := by omega
  simp only [whole, if_true, hcond, if_false, hvalue]

theorem whole_positive {i : Int} (hpos : 0 ≤ i) : whole false i.natAbs = .integer i := by
  have hvalue : (i.natAbs : Int) = i := by omega
  simp only [whole, Bool.false_eq_true, if_false, hvalue]

theorem scalar_signed {i : Int} (hi : -0x8000000000000000 ≤ i ∧ i < 0x10000000000000000) {rest : Input}
    (h : EndsNumber rest) :
    scalar ((signed i).toList ++ rest) = .ok (.number (.integer i), rest) := by
  rw [toList_signed]
  split
  · rename_i hneg
    simp only [List.cons_append, scalar, number_digits true (n := i.natAbs) (by omega) h,
      whole_negative hneg hi.1]
    rfl
  · rename_i hpos
    have hread := number_digits false (n := i.natAbs) (by omega) h
    rw [whole_positive (Int.not_lt.mp hpos)] at hread
    obtain ⟨c, cs, hd, hdigit⟩ := (digits_digits i.natAbs).cons
    rw [hd] at hread ⊢
    exact scalar_digit hdigit hread

theorem scalar_scalarText {a : Scalar} (ha : a.Readable) {rest : Input} (h : EndsNumber rest) :
    scalar (scalarText a ++ rest) = .ok (a, rest) := by
  cases a with
  | null => rfl
  | boolean b => cases b <;> rfl
  | number n =>
    cases n with
    | integer i => exact scalar_signed ha h
    | real x => exact absurd ha id
  | text s =>
    have hs := string_escaped s rest
    simp only [scalarText, stringText, List.cons_append, List.append_assoc, List.nil_append, scalar,
      hs]
    rfl

/-! ### Whole numbers -/

theorem real_ok {negative : Bool} {significand : Nat} {scale : Int} {s rest : Input} {n : Number}
    (h : real negative significand scale s = .ok (n, rest)) : ∃ x, n = .real x := by
  unfold real at h
  split at h
  · cases h
    exact ⟨_, rfl⟩
  · cases h

theorem exponentDigits_ok {negative down : Bool} {significand : Nat} {scale : Int} {s rest : Input}
    {n : Number} (h : exponentDigits negative significand scale down s = .ok (n, rest)) :
    ∃ x, n = .real x := by
  unfold exponentDigits at h
  split at h
  · cases h
  · split at h
    · dsimp only at h
      split at h
      · exact real_ok h
      · split at h
        · cases h
        · cases h
          exact ⟨_, rfl⟩
    · cases h

theorem exponent_ok {negative : Bool} {significand : Nat} {scale : Int} {s rest : Input}
    {n : Number} (h : exponent negative significand scale s = .ok (n, rest)) :
    ∃ x, n = .real x := by
  unfold exponent at h
  split at h
  · split at h
    · split at h
      · exact exponentDigits_ok h
      · exact exponentDigits_ok h
      · exact exponentDigits_ok h
    · exact real_ok h
  · exact real_ok h

/-- A number with a fraction or an exponent is real. -/
theorem fraction_ok {negative : Bool} {significand dropped : Nat} {s rest : Input} {n : Number}
    (h : fraction negative significand dropped s = .ok (n, rest)) :
    (∃ x, n = .real x) ∨
      (dropped = 0 ∧ rest = s ∧ n = whole negative significand ∧
        ∀ c ∈ s.head?, c ≠ '.' ∧ c ≠ 'e' ∧ c ≠ 'E') := by
  unfold fraction at h
  split at h
  · dsimp only at h
    split at h
    · cases h
    · exact .inl (exponent_ok h)
  · rename_i c r hpoint
    split at h
    · exact .inl (exponent_ok h)
    · rename_i hexponent
      split at h
      · cases h
        refine .inr ⟨‹_›, rfl, rfl, fun d hd => ?_⟩
        cases hd
        exact ⟨hpoint, fun hc => hexponent (.inl hc), fun hc => hexponent (.inr hc)⟩
      · exact .inl (real_ok h)
  · split at h
    · cases h
      exact .inr ⟨‹_›, rfl, rfl, fun d hd => nomatch hd⟩
    · exact .inl (real_ok h)

/-- Digits that are all taken fit the significand. -/
theorem absorb_all {cs : List Char} {n : Nat} (hn : n < 0x10000000000000000)
    (h : cs.length ≤ (absorb n cs).2) :
    (absorb n cs).1 = Nat.ofDigitChars 10 cs n ∧ Nat.ofDigitChars 10 cs n < 0x10000000000000000 := by
  induction cs generalizing n with
  | nil => exact ⟨rfl, hn⟩
  | cons c cs ih =>
    have hnext : Nat.ofDigitChars 10 (c :: cs) n = Nat.ofDigitChars 10 cs (n * 10 + digitValue c) := by
      rw [Nat.ofDigitChars_cons, Nat.mul_comm]
      rfl
    rw [hnext]
    simp only [absorb] at h ⊢
    split
    · rename_i hfits
      rw [if_pos hfits] at h
      exact ih hfits (Nat.le_of_succ_le_succ h)
    · rename_i hfits
      rw [if_neg hfits] at h
      exact absurd h (Nat.not_succ_le_zero _)

/-- What may follow the digits of a number ends it if the digits are all there. -/
theorem endsNumber_of {s : Input} (hdigit : ∀ c ∈ s.head?, c.isDigit = false)
    (hrest : ∀ c ∈ s.head?, c ≠ '.' ∧ c ≠ 'e' ∧ c ≠ 'E') : EndsNumber s :=
  fun c hc => ⟨hdigit c hc, hrest c hc⟩

/-- A number that is read as an integer is written in digits alone. -/
theorem number_integer {negative : Bool} {s rest : Input} {i : Int}
    (h : number negative s = .ok (.integer i, rest)) :
    ∃ n, s = digits n ++ rest ∧ EndsNumber rest ∧ n < 0x10000000000000000 ∧
      whole negative n = .integer i := by
  have hread {dropped significand : Nat} {s : Input}
      (h : fraction negative significand dropped s = .ok (.integer i, rest)) :
      dropped = 0 ∧ rest = s ∧ whole negative significand = .integer i ∧
        ∀ c ∈ s.head?, c ≠ '.' ∧ c ≠ 'e' ∧ c ≠ 'E' := by
    rcases fraction_ok h with ⟨x, hx⟩ | ⟨hdropped, hrest, hwhole, hends⟩
    · cases hx
    · exact ⟨hdropped, hrest, hwhole.symm, hends⟩
  unfold number at h
  split at h
  · cases h
  · rename_i c r
    split at h
    · rename_i hzero
      have hends : (∀ c ∈ r.head?, c.isDigit = false) ∧
          fraction negative 0 0 r = .ok (.integer i, rest) := by
        split at h
        · rename_i d r'
          split at h
          · cases h
          · rename_i hd
            refine ⟨fun c hc => ?_, h⟩
            cases hc
            exact Bool.of_not_eq_true hd
        · exact ⟨nofun, h⟩
      obtain ⟨hdigit, hfraction⟩ := hends
      obtain ⟨-, rfl, hwhole, hrest⟩ := hread hfraction
      refine ⟨0, ?_, endsNumber_of hdigit hrest, by decide, hwhole⟩
      rw [digits_zero, hzero, List.singleton_append]
    · rename_i hzero
      split at h
      · rename_i hc
        obtain ⟨hdropped, hrest, hwhole, hends⟩ := hread h
        obtain ⟨hvalue, hlt⟩ := absorb_all (by decide) (Nat.le_of_sub_eq_zero hdropped)
        have hdigits : ∀ d ∈ (c :: r).takeWhile Char.isDigit, d.isDigit = true :=
          List.all_eq_true.mp List.all_takeWhile
        have htake : (c :: r).takeWhile Char.isDigit = c :: r.takeWhile Char.isDigit :=
          List.takeWhile_cons_of_pos hc
        rw [hvalue] at hwhole
        refine ⟨_, ?_, ?_, hlt, hwhole⟩
        · rw [htake] at hdigits ⊢
          rw [digits_of_cons hdigits hzero, ← htake, hrest, List.takeWhile_append_dropWhile]
        · rw [hrest]
          exact endsNumber_of (head?_dropWhile Char.isDigit _) hends
      · cases h

theorem whole_integer {negative : Bool} {n : Nat} {i : Int} (hn : n < 0x10000000000000000)
    (h : whole negative n = .integer i) :
    (if negative then '-' :: digits n else digits n) = (signed i).toList ∧
      -0x8000000000000000 ≤ i ∧ i < 0x10000000000000000 := by
  unfold whole at h
  split at h
  · rename_i hneg
    split at h
    · cases h
    · rename_i hsize
      cases h
      rw [if_pos hneg, toList_signed, if_pos (by omega), Int.natAbs_neg, Int.natAbs_natCast]
      exact ⟨rfl, by omega, by omega⟩
  · rename_i hneg
    cases h
    rw [if_neg hneg, toList_signed, if_neg (by omega), Int.natAbs_natCast]
    exact ⟨rfl, by omega, by omega⟩

/-- A scalar is read as an integer exactly from the digits of one that 64 bits hold: a fraction, an
exponent or the sign of zero make it real. -/
theorem scalar_integer_iff {s rest : Input} {i : Int} :
    scalar s = .ok (.number (.integer i), rest) ↔
      s = (signed i).toList ++ rest ∧ EndsNumber rest ∧
        -0x8000000000000000 ≤ i ∧ i < 0x10000000000000000 := by
  constructor
  · intro h
    have hnumber {negative : Bool} {r : Input} (h : number negative r = .ok (.integer i, rest)) :
        (if negative then '-' :: r else r) = (signed i).toList ++ rest ∧ EndsNumber rest ∧
          -0x8000000000000000 ≤ i ∧ i < 0x10000000000000000 := by
      obtain ⟨n, rfl, hends, hn, hwhole⟩ := number_integer h
      obtain ⟨htext, hrange⟩ := whole_integer hn hwhole
      refine ⟨?_, hends, hrange⟩
      rw [← htext]
      cases negative <;> rfl
    unfold scalar at h
    split at h
    · cases h
    · obtain ⟨r, -, h⟩ := ok_of_bind h
      cases h
    · obtain ⟨r, -, h⟩ := ok_of_bind h
      cases h
    · obtain ⟨r, -, h⟩ := ok_of_bind h
      cases h
    · obtain ⟨⟨n, r⟩, hread, h⟩ := ok_of_bind h
      cases h
      exact hnumber hread
    · obtain ⟨⟨t, r⟩, -, h⟩ := ok_of_bind h
      cases h
    · split at h
      · obtain ⟨⟨n, r⟩, hread, h⟩ := ok_of_bind h
        cases h
        exact hnumber hread
      · cases h
  · rintro ⟨rfl, hends, hrange⟩
    exact scalar_signed hrange hends

/-! ### First characters -/

/-- A character that begins a value neither is blank nor opens an array or an object. -/
def BeginsScalar (c : Char) : Prop := isBlank c = false ∧ c ≠ '[' ∧ c ≠ '\x7b'

theorem beginsScalar_of_isDigit {c : Char} (hc : c.isDigit = true) : BeginsScalar c :=
  ⟨isBlank_of_isDigit hc, ne_of_isDigit hc (by decide), ne_of_isDigit hc (by decide)⟩

theorem scalarText_cons {a : Scalar} (ha : a.Readable) :
    ∃ c cs, scalarText a = c :: cs ∧ BeginsScalar c := by
  cases a with
  | null => exact ⟨_, _, rfl, by decide, by decide, by decide⟩
  | boolean b => cases b <;> exact ⟨_, _, rfl, by decide, by decide, by decide⟩
  | number n =>
    cases n with
    | integer i =>
      simp only [scalarText, Number.shown, toList_signed]
      split
      · exact ⟨_, _, rfl, by decide, by decide, by decide⟩
      · obtain ⟨c, cs, hd, hdigit⟩ := (digits_digits i.natAbs).cons
        exact ⟨c, cs, hd, beginsScalar_of_isDigit hdigit⟩
    | real x => exact absurd ha id
  | text s => exact ⟨_, _, rfl, by decide, by decide, by decide⟩

/-! ### No control characters -/

/-- A text without control characters; line breaks are among them. -/
def Plain (cs : List Char) : Prop := ∀ c ∈ cs, ¬ c < ' '

instance (cs : List Char) : Decidable (Plain cs) := List.decidableBAll (fun c => ¬ c < ' ') cs

theorem plain_nil : Plain [] := by decide

theorem Plain.append {a b : List Char} (ha : Plain a) (hb : Plain b) : Plain (a ++ b) := by
  intro c hc
  rcases List.mem_append.mp hc with hc | hc
  · exact ha c hc
  · exact hb c hc

theorem Plain.cons {c : Char} {cs : List Char} (hcs : Plain cs) (hc : ¬ c < ' ') :
    Plain (c :: cs) := by
  intro d hd
  rcases List.mem_cons.mp hd with hd | hd
  · rw [hd]
    exact hc
  · exact hcs d hd

theorem plain_digits (n : Nat) : Plain (digits n) := by
  intro c hc hlt
  have hdigit := Char.isDigit_iff_toNat.mp (isDigit_of_mem_digits hc)
  have hlow : c.toNat < 32 := hlt
  have hhigh : 48 ≤ c.toNat := hdigit.1
  omega

theorem plain_signed (i : Int) : Plain (signed i).toList := by
  rw [toList_signed]
  split
  · exact (plain_digits _).cons (by decide)
  · exact plain_digits _

theorem plain_escaped (c : Char) : Plain (escaped c) := by
  rcases escaped_cases c with ⟨d, hd, he⟩ | ⟨hc, he⟩ | ⟨-, -, hc, he⟩
  · have hall : ∀ p ∈ shortEscapes, Plain ['\\', p.1] := by decide
    obtain ⟨before, after, hsplit, -⟩ := List.lookup_eq_some_iff.mp hd
    have hmem : (d, c) ∈ shortEscapes := by simp [hsplit]
    rw [he]
    exact hall _ hmem
  · have hhex : ∀ n < 16, ¬ n.digitChar < ' ' := by decide
    have hn : c.toNat < 32 := hc
    have htail : Plain [(c.toNat / 16).digitChar, (c.toNat % 16).digitChar] :=
      (plain_nil.cons (hhex _ (by omega))).cons (hhex _ (by omega))
    have hzeros : Plain ['\\', 'u', '0', '0'] := by decide
    rw [he, controlDigits_eq hc]
    exact hzeros.append htail
  · rw [he]
    exact plain_nil.cons hc

theorem plain_stringText (s : String) : Plain (stringText s) := by
  have hbody : Plain (s.toList.flatMap escaped) := by
    intro c hc
    obtain ⟨d, -, hd⟩ := List.mem_flatMap.mp hc
    exact plain_escaped d c hd
  exact (hbody.append (by decide)).cons (by decide)

theorem plain_scalarText {a : Scalar} (ha : a.Readable) : Plain (scalarText a) := by
  cases a with
  | null => decide
  | boolean b => cases b <;> decide
  | number n =>
    cases n with
    | integer i => exact plain_signed i
    | real x => exact absurd ha id
  | text s => exact plain_stringText s

end LoaderBench.Json
