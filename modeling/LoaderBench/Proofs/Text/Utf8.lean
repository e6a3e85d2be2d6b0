import LoaderBench.Text.Utf8

/-!
# Text survives its encoding

The bytes of a character are read back as that character, whatever follows them. So the encoding of a
text is shown as the text itself, and is accepted by `decode?`. Bytes that encode no text are shown as
something, too.
-/

namespace LoaderBench.Utf8

/-! ### First bytes -/

theorem piecesFrom_cons (p : Option Pending) (b : UInt8) (rest : Bytes) :
    piecesFrom p (b :: rest) = (step p b).1 ++ piecesFrom (step p b).2 rest := by
  cases p <;> rfl

theorem not_lt_of_toNat_le {b k : UInt8} (h : k.toNat ≤ b.toNat) : ¬ b < k := fun hb =>
  absurd (UInt8.lt_iff_toNat_lt.mp hb) (Nat.not_lt.mpr h)

theorem start_one {b : UInt8} (h : b.toNat < 0x80) :
    start b = ([.char (Char.ofNat b.toNat)], none) := by
  have h80 : b < 0x80 := UInt8.lt_iff_toNat_lt.mpr h
  simp only [start, h80, if_true]

theorem start_two {b : UInt8} (h : 0xC2 ≤ b.toNat) (h' : b.toNat < 0xE0) :
    start b = ([], some ⟨[b], b.toNat - 0xC0, 0, 0x80, 0xBF⟩) := by
  have h80 : ¬ b < 0x80 := not_lt_of_toNat_le (Nat.le_trans (by decide) h)
  have hC2 : ¬ b < 0xC2 := not_lt_of_toNat_le h
  have hE0 : b < 0xE0 := UInt8.lt_iff_toNat_lt.mpr h'
  simp only [start, h80, hC2, hE0, if_true, if_false]

theorem start_three {b : UInt8} (h : 0xE0 ≤ b.toNat) (h' : b.toNat < 0xF0) :
    start b = ([], some ⟨[b], b.toNat - 0xE0, 1, if b = 0xE0 then 0xA0 else 0x80,
      if b = 0xED then 0x9F else 0xBF⟩) := by
  have h80 : ¬ b < 0x80 := not_lt_of_toNat_le (Nat.le_trans (by decide) h)
  have hC2 : ¬ b < 0xC2 := not_lt_of_toNat_le (Nat.le_trans (by decide) h)
  have hE0 : ¬ b < 0xE0 := not_lt_of_toNat_le h
  have hF0 : b < 0xF0 := UInt8.lt_iff_toNat_lt.mpr h'
  simp only [start, h80, hC2, hE0, hF0, if_true, if_false]

theorem start_four {b : UInt8} (h : 0xF0 ≤ b.toNat) (h' : b.toNat < 0xF5) :
    start b = ([], some ⟨[b], b.toNat - 0xF0, 2, if b = 0xF0 then 0x90 else 0x80,
      if b = 0xF4 then 0x8F else 0xBF⟩) := by
  have h80 : ¬ b < 0x80 := not_lt_of_toNat_le (Nat.le_trans (by decide) h)
  have hC2 : ¬ b < 0xC2 := not_lt_of_toNat_le (Nat.le_trans (by decide) h)
  have hE0 : ¬ b < 0xE0 := not_lt_of_toNat_le (Nat.le_trans (by decide) h)
  have hF0 : ¬ b < 0xF0 := not_lt_of_toNat_le h
  have hF5 : b < 0xF5 := UInt8.lt_iff_toNat_lt.mpr h'
  simp only [start, h80, hC2, hE0, hF0, hF5, if_true, if_false]

/-! ### Further bytes -/

/-- The byte that carries the last six bits of a number. -/
def tailByte (n : Nat) : UInt8 := UInt8.ofNat (n % 64 + 0x80)

theorem toNat_tailByte (n : Nat) : (tailByte n).toNat = n % 64 + 0x80 := by
  simp only [tailByte, UInt8.toNat_ofNat']
  omega

theorem tailByte_mem (n : Nat) : (0x80 : UInt8) ≤ tailByte n ∧ tailByte n ≤ (0xBF : UInt8) := by
  have hn := toNat_tailByte n
  constructor
  · rw [UInt8.le_iff_toNat_le, hn]
    exact Nat.le_add_left _ _
  · rw [UInt8.le_iff_toNat_le, hn]
    show n % 64 + 0x80 ≤ 0xBF
    omega

theorem low_le_tailByte {b k low : UInt8} {n : Nat}
    (h : b.toNat = k.toNat → low.toNat ≤ n % 64 + 0x80) :
    (if b = k then low else 0x80) ≤ tailByte n := by
  split
  · rename_i hb
    rw [UInt8.le_iff_toNat_le, toNat_tailByte]
    exact h (congrArg UInt8.toNat hb)
  · exact (tailByte_mem n).1

theorem tailByte_le_high {b k high : UInt8} {n : Nat}
    (h : b.toNat = k.toNat → n % 64 + 0x80 ≤ high.toNat) :
    tailByte n ≤ (if b = k then high else 0xBF) := by
  split
  · rename_i hb
    rw [UInt8.le_iff_toNat_le, toNat_tailByte]
    exact h (congrArg UInt8.toNat hb)
  · exact (tailByte_mem n).2

theorem piecesFrom_last (seen : Bytes) (value n : Nat) {low high : UInt8}
    (h : low ≤ tailByte n ∧ tailByte n ≤ high) (rest : Bytes) :
    piecesFrom (some ⟨seen, value, 0, low, high⟩) (tailByte n :: rest) =
      .char (Char.ofNat (value * 64 + n % 64)) :: piecesFrom none rest := by
  simp only [piecesFrom_cons, step, h, and_self, if_true, toNat_tailByte, Nat.add_sub_cancel,
    List.singleton_append]

theorem piecesFrom_more (seen : Bytes) (value more n : Nat) {low high : UInt8}
    (h : low ≤ tailByte n ∧ tailByte n ≤ high) (rest : Bytes) :
    piecesFrom (some ⟨seen, value, more + 1, low, high⟩) (tailByte n :: rest) =
      piecesFrom (some ⟨seen ++ [tailByte n], value * 64 + n % 64, more, 0x80, 0xBF⟩) rest := by
  simp only [piecesFrom_cons, step, h, and_self, if_true, toNat_tailByte, Nat.add_sub_cancel,
    List.nil_append]

/-! ### Characters -/

/-- The numbers of characters leave out the surrogates. -/
theorem toNat_char (c : Char) : c.toNat < 0xD800 ∨ 0xDFFF < c.toNat ∧ c.toNat < 0x110000 := c.valid

theorem utf8EncodeChar_eq (c : Char) :
    String.utf8EncodeChar c =
      if c.toNat ≤ 0x7F then [UInt8.ofNat c.toNat]
      else if c.toNat ≤ 0x7FF then [UInt8.ofNat (c.toNat / 64 % 0x20 + 0xC0), tailByte c.toNat]
      else if c.toNat ≤ 0xFFFF then
        [UInt8.ofNat (c.toNat / 4096 % 0x10 + 0xE0), tailByte (c.toNat / 64), tailByte c.toNat]
      else
        [UInt8.ofNat (c.toNat / 262144 % 0x08 + 0xF0), tailByte (c.toNat / 4096),
          tailByte (c.toNat / 64), tailByte c.toNat] := rfl

/-- The bytes of a character are read back as the character, whatever follows. -/
theorem piecesFrom_utf8EncodeChar (c : Char) (rest : Bytes) :
    piecesFrom none (String.utf8EncodeChar c ++ rest) = .char c :: piecesFrom none rest := by
  have hc : Char.ofNat c.toNat = c := Char.ofNat_toNat c
  have hvalid := toNat_char c
  rw [utf8EncodeChar_eq]
  generalize c.toNat = n at hc hvalid
  split
  · have hb : (UInt8.ofNat n).toNat = n := by
      rw [UInt8.toNat_ofNat']
      omega
    simp only [List.singleton_append, piecesFrom_cons, step, start_one (b := UInt8.ofNat n) (by omega),
      hb, hc]
  split
  · have hb : (UInt8.ofNat (n / 64 % 0x20 + 0xC0)).toNat = n / 64 + 0xC0 := by
      rw [UInt8.toNat_ofNat']
      omega
    have hvalue : (n / 64 + 0xC0 - 0xC0) * 64 + n % 64 = n := by omega
    rw [List.cons_append, List.singleton_append, piecesFrom_cons, step,
      start_two (by omega) (by omega), List.nil_append, piecesFrom_last _ _ _ (tailByte_mem n), hb,
      hvalue, hc]
  split
  · have hb : (UInt8.ofNat (n / 4096 % 0x10 + 0xE0)).toNat = n / 4096 + 0xE0 := by
      rw [UInt8.toNat_ofNat']
      omega
    have hvalue : ((n / 4096 + 0xE0 - 0xE0) * 64 + n / 64 % 64) * 64 + n % 64 = n := by omega
    have hlow : (if UInt8.ofNat (n / 4096 % 0x10 + 0xE0) = 0xE0 then (0xA0 : UInt8) else 0x80) ≤
        tailByte (n / 64) := low_le_tailByte (by simp only [hb, UInt8.reduceToNat]; omega)
    have hhigh : tailByte (n / 64) ≤
        if UInt8.ofNat (n / 4096 % 0x10 + 0xE0) = 0xED then (0x9F : UInt8) else 0xBF :=
      tailByte_le_high (by simp only [hb, UInt8.reduceToNat]; omega)
    rw [List.cons_append, List.cons_append, List.singleton_append, piecesFrom_cons, step,
      start_three (by omega) (by omega), List.nil_append, piecesFrom_more _ _ _ _ ⟨hlow, hhigh⟩,
      piecesFrom_last _ _ _ (tailByte_mem n), hb, hvalue, hc]
  · have hb : (UInt8.ofNat (n / 262144 % 0x08 + 0xF0)).toNat = n / 262144 + 0xF0 := by
      rw [UInt8.toNat_ofNat']
      omega
    have hvalue : (((n / 262144 + 0xF0 - 0xF0) * 64 + n / 4096 % 64) * 64 + n / 64 % 64) * 64 +
        n % 64 = n := by omega
    have hlow : (if UInt8.ofNat (n / 262144 % 0x08 + 0xF0) = 0xF0 then (0x90 : UInt8) else 0x80) ≤
        tailByte (n / 4096) := low_le_tailByte (by simp only [hb, UInt8.reduceToNat]; omega)
    have hhigh : tailByte (n / 4096) ≤
        if UInt8.ofNat (n / 262144 % 0x08 + 0xF0) = 0xF4 then (0x8F : UInt8) else 0xBF :=
      tailByte_le_high (by simp only [hb, UInt8.reduceToNat]; omega)
    rw [List.cons_append, List.cons_append, List.cons_append, List.singleton_append,
      piecesFrom_cons, step, start_four (by omega) (by omega), List.nil_append,
      piecesFrom_more _ _ _ _ ⟨hlow, hhigh⟩, piecesFrom_more _ _ _ _ (tailByte_mem _),
      piecesFrom_last _ _ _ (tailByte_mem n), hb, hvalue, hc]

/-! ### Texts -/

/-- A character under way comes to a piece in the end. -/
theorem piecesFrom_some_ne_nil (p : Pending) (bytes : Bytes) : piecesFrom (some p) bytes ≠ [] := by
  induction bytes generalizing p with
  | nil => exact List.cons_ne_nil _ _
  | cons b rest ih =>
    rw [piecesFrom_cons, step]
    split
    · cases p.more with
      | zero => exact List.cons_ne_nil _ _
      | succ more => exact ih _
    · exact List.cons_ne_nil _ _

theorem pieces_ne_nil (b : UInt8) (rest : Bytes) : pieces (b :: rest) ≠ [] := by
  rw [pieces, piecesFrom_cons, step, start]
  split
  · exact List.cons_ne_nil _ _
  split
  · exact List.cons_ne_nil _ _
  split
  · exact piecesFrom_some_ne_nil _ rest
  split
  · exact piecesFrom_some_ne_nil _ rest
  split
  · exact piecesFrom_some_ne_nil _ rest
  · exact List.cons_ne_nil _ _

/-- Only no bytes at all are shown as no text. -/
theorem lossy_eq_empty_iff {bytes : Bytes} : lossy bytes = "" ↔ bytes = [] := by
  constructor
  · intro h
    cases bytes with
    | nil => rfl
    | cons b rest =>
      have hshown : (pieces (b :: rest)).map Piece.shown = [] := String.ofList_eq_empty_iff.mp h
      exact absurd (List.map_eq_nil_iff.mp hshown) (pieces_ne_nil b rest)
  · rintro rfl
    rfl

theorem piecesFrom_encode (s : String) (rest : Bytes) :
    piecesFrom none (encode s ++ rest) = s.toList.map .char ++ piecesFrom none rest := by
  simp only [encode]
  induction s.toList with
  | nil => rfl
  | cons c cs ih =>
    rw [List.flatMap_cons, List.append_assoc, piecesFrom_utf8EncodeChar, ih]
    rfl

theorem pieces_encode (s : String) : pieces (encode s) = s.toList.map .char := by
  have hwhole := piecesFrom_encode s []
  rwa [List.append_nil, piecesFrom, List.append_nil] at hwhole

theorem lossy_encode (s : String) : lossy (encode s) = s := by
  have hshown : Piece.shown ∘ Piece.char = id := rfl
  rw [lossy, pieces_encode, List.map_map, hshown, List.map_id, String.ofList_toList]

theorem encode_inj {s t : String} (h : encode s = encode t) : s = t := by
  rw [← lossy_encode s, h, lossy_encode]

theorem decode?_encode (s : String) : decode? (encode s) = some s := by
  simp only [decode?, lossy_encode, if_true]

end LoaderBench.Utf8
