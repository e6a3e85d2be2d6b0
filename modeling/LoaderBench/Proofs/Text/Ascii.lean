import LoaderBench.Proofs.Text.Utf8

/-!
# Characters of one byte

A character below 80 has itself as its one byte, and no other character has that byte. So it occurs in
what a byte string shows exactly if its byte occurs there, whatever the other bytes are: in the middle
of a broken run it breaks the run off and is shown. In the encoding of a text such a byte stands between
characters: what comes before it is the encoding of a text as well.
-/

namespace LoaderBench.Utf8

variable {a : Char} {b : UInt8} {p : Pending}

/-! ### Numbers of characters -/

/-- A number that belongs to no character counts as zero. -/
theorem toNat_ofNat (n : Nat) : (Char.ofNat n).toNat = n ∨ Char.ofNat n = '\x00' := by
  by_cases hvalid : n.isValidChar
  · left
    rw [Char.ofNat, dif_pos hvalid]
    rfl
  · right
    exact dif_neg hvalid

theorem ofNat_eq_iff (h0 : a ≠ '\x00') {n : Nat} : Char.ofNat n = a ↔ n = a.toNat := by
  constructor
  · rintro rfl
    exact ((toNat_ofNat n).resolve_right h0).symm
  · rintro rfl
    exact Char.ofNat_toNat a

/-! ### One byte -/

/-- A byte that begins no character breaks off by itself. -/
theorem start_broken {b : UInt8} (h : 0x80 ≤ b.toNat ∧ b.toNat < 0xC2 ∨ 0xF5 ≤ b.toNat) :
    start b = ([.broken [b]], none) := by
  have h80 : ¬ b < 0x80 := not_lt_of_toNat_le (show 0x80 ≤ b.toNat by omega)
  by_cases hC2 : b < 0xC2
  · simp only [start, h80, hC2, if_true, if_false]
  · have hhigh : 0xF5 ≤ b.toNat := h.resolve_left fun hlow => hC2 (UInt8.lt_iff_toNat_lt.mpr hlow.2)
    have hE0 : ¬ b < 0xE0 := not_lt_of_toNat_le (Nat.le_trans (by decide) hhigh)
    have hF0 : ¬ b < 0xF0 := not_lt_of_toNat_le (Nat.le_trans (by decide) hhigh)
    have hF5 : ¬ b < 0xF5 := not_lt_of_toNat_le hhigh
    simp only [start, h80, hC2, hE0, hF0, hF5, if_false]

/-- Whether a character is shown by pieces. -/
def Shows (a : Char) (ps : List Piece) : Prop := a ∈ ps.map Piece.shown

/-- A character under way whose number cannot come to lie below 80. -/
structure Pending.Long (p : Pending) : Prop where
  low : 0x80 ≤ p.low.toNat
  value : 2 ≤ p.value ∨ 0 < p.more ∧ (0 < p.value ∨ 0x82 ≤ p.low.toNat)

theorem long_of_none : ∀ p ∈ (none : Option Pending), p.Long := by
  intro p hp
  cases hp

/-- A step shows a character of one byte exactly if the byte read is that of the character. -/
structure Tells (a : Char) (b : UInt8) (next : List Piece × Option Pending) : Prop where
  shows_iff : Shows a next.1 ↔ b.toNat = a.toNat
  long : ∀ p ∈ next.2, p.Long

theorem shows_char_iff (h0 : a ≠ '\x00') (n : Nat) :
    Shows a [.char (Char.ofNat n)] ↔ n = a.toNat := by
  rw [← ofNat_eq_iff h0]
  simp [Shows, Piece.shown, eq_comm]

section

variable (ha : a.toNat < 0x80) (h0 : a ≠ '\x00')

include ha

theorem ne_replacement : a ≠ replacement := by
  rintro rfl
  revert ha
  decide

theorem not_shows_broken (bytes : Bytes) : ¬ Shows a [.broken bytes] := by
  simpa [Shows, Piece.shown] using ne_replacement ha

include h0

theorem tells_start (b : UInt8) : Tells a b (start b) := by
  by_cases h80 : b.toNat < 0x80
  · rw [start_one h80]
    exact ⟨shows_char_iff h0 _, long_of_none⟩
  have hb : b.toNat ≠ a.toNat := by omega
  have hnone (q : Pending) (hq : q.Long) : Tells a b ([], some q) := by
    refine ⟨iff_of_false List.not_mem_nil hb, ?_⟩
    rintro _ ⟨⟩
    exact hq
  have hbroken : Tells a b ([.broken [b]], none) :=
    ⟨iff_of_false (not_shows_broken ha _) hb, long_of_none⟩
  by_cases hC2 : b.toNat < 0xC2
  · rw [start_broken (.inl ⟨by omega, hC2⟩)]
    exact hbroken
  by_cases hE0 : b.toNat < 0xE0
  · rw [start_two (by omega) hE0]
    exact hnone _ ⟨Nat.le_refl 0x80, .inl (show 2 ≤ b.toNat - 0xC0 by omega)⟩
  by_cases hF0 : b.toNat < 0xF0
  · rw [start_three (by omega) hF0]
    refine hnone _ ⟨?_, .inr ⟨Nat.one_pos, ?_⟩⟩
    · dsimp only
      split <;> decide
    · dsimp only
      split
      · exact .inr (by decide)
      · rename_i hne
        have hne' : b.toNat ≠ 0xE0 := fun h => hne (UInt8.toNat_inj.mp h)
        exact .inl (by omega)
  by_cases hF5 : b.toNat < 0xF5
  · rw [start_four (by omega) hF5]
    refine hnone _ ⟨?_, .inr ⟨Nat.two_pos, ?_⟩⟩
    · dsimp only
      split <;> decide
    · dsimp only
      split
      · exact .inr (by decide)
      · rename_i hne
        have hne' : b.toNat ≠ 0xF0 := fun h => hne (UInt8.toNat_inj.mp h)
        exact .inl (by omega)
  · rw [start_broken (.inr (by omega))]
    exact hbroken

theorem tells_step (hp : p.Long) (b : UInt8) : Tells a b (step (some p) b) := by
  obtain ⟨hlow, hvalue⟩ := hp
  simp only [step]
  split
  · rename_i hrange
    have hb : p.low.toNat ≤ b.toNat := UInt8.le_iff_toNat_le.mp hrange.1
    have hother : b.toNat ≠ a.toNat := by omega
    split
    · rename_i hmore
      have htwo : 2 ≤ p.value := hvalue.resolve_right fun h => by omega
      refine ⟨?_, long_of_none⟩
      rw [shows_char_iff h0]
      omega
    · rename_i more hmore
      refine ⟨iff_of_false List.not_mem_nil hother, ?_⟩
      rintro _ ⟨⟩
      exact ⟨Nat.le_refl 0x80, .inl (show 2 ≤ p.value * 64 + (b.toNat - 0x80) by omega)⟩
  · obtain ⟨hshows, hlong⟩ := tells_start ha h0 b
    refine ⟨?_, hlong⟩
    rw [← hshows]
    simp [Shows, Piece.shown, ne_replacement ha]

/-! ### Byte strings -/

theorem shows_piecesFrom_iff (p : Option Pending) (hp : ∀ q ∈ p, q.Long) (bytes : Bytes) :
    Shows a (piecesFrom p bytes) ↔ UInt8.ofNat a.toNat ∈ bytes := by
  have hbyte (b : UInt8) : b.toNat = a.toNat ↔ UInt8.ofNat a.toNat = b := by
    rw [← UInt8.toNat_inj, UInt8.toNat_ofNat']
    omega
  induction bytes generalizing p with
  | nil =>
    refine iff_of_false ?_ List.not_mem_nil
    cases p with
    | none => exact List.not_mem_nil
    | some q => exact not_shows_broken ha _
  | cons b rest ih =>
    obtain ⟨hshows, hlong⟩ : Tells a b (step p b) := by
      cases p with
      | none => exact tells_start ha h0 b
      | some q => exact tells_step ha h0 (hp q rfl) b
    have hrest : Shows a (piecesFrom (step p b).2 rest) ↔ UInt8.ofNat a.toNat ∈ rest := ih _ hlong
    rw [piecesFrom_cons, List.mem_cons, ← hbyte, ← hshows, ← hrest]
    simp only [Shows, List.map_append, List.mem_append]

/-- A character of one byte is shown exactly where its byte stands. -/
theorem mem_lossy_iff (bytes : Bytes) : a ∈ (lossy bytes).toList ↔ UInt8.ofNat a.toNat ∈ bytes := by
  rw [lossy, String.toList_ofList]
  exact shows_piecesFrom_iff ha h0 none long_of_none bytes

theorem mem_encode_iff (s : String) : UInt8.ofNat a.toNat ∈ encode s ↔ a ∈ s.toList := by
  rw [← mem_lossy_iff ha h0, lossy_encode]

end

/-! ### Encoded texts -/

theorem utf8EncodeChar_eq_cons (c : Char) :
    ∃ b bs, String.utf8EncodeChar c = b :: bs ∧ ∀ t ∈ bs, 0x80 ≤ t.toNat := by
  have htail (n : Nat) : 0x80 ≤ (tailByte n).toNat := by
    rw [toNat_tailByte]
    omega
  rw [utf8EncodeChar_eq]
  split
  · exact ⟨_, _, rfl, fun t ht => absurd ht List.not_mem_nil⟩
  split
  · exact ⟨_, _, rfl, by simp [htail]⟩
  split
  · exact ⟨_, _, rfl, by simp [htail]⟩
  · exact ⟨_, _, rfl, by simp [htail]⟩

theorem split_at_byte {cs : List Char} {x y : Bytes} (hb : b.toNat < 0x80)
    (h : cs.flatMap String.utf8EncodeChar = x ++ b :: y) :
    ∃ xs ys, cs = xs ++ ys ∧ xs.flatMap String.utf8EncodeChar = x ∧
      ys.flatMap String.utf8EncodeChar = b :: y := by
  induction cs generalizing x with
  | nil => exact absurd h (List.append_ne_nil_of_right_ne_nil x (List.cons_ne_nil b y)).symm
  | cons c cs ih =>
    obtain ⟨first, bs, hc, htail⟩ := utf8EncodeChar_eq_cons c
    cases x with
    | nil => exact ⟨[], c :: cs, rfl, rfl, h⟩
    | cons d x =>
      rw [List.flatMap_cons, hc, List.cons_append, List.cons_append] at h
      obtain ⟨rfl, hrest⟩ := List.cons.inj h
      -- The bytes of the first character end before the one below 80, which is not its first.
      rcases List.append_eq_append_iff.mp hrest with ⟨x', rfl, hcs⟩ | ⟨t, hbs, hy⟩
      · obtain ⟨xs, ys, rfl, rfl, hys⟩ := ih hcs
        refine ⟨c :: xs, ys, rfl, ?_, hys⟩
        rw [List.flatMap_cons, hc, List.cons_append]
      · cases t with
        | nil =>
          rw [List.append_nil] at hbs
          refine ⟨[c], cs, rfl, ?_, hy.symm⟩
          rw [List.flatMap_cons, hc, hbs, List.flatMap_nil, List.append_nil]
        | cons t ts =>
          obtain ⟨rfl, -⟩ := List.cons.inj hy
          have hlow : 0x80 ≤ b.toNat :=
            htail b (hbs ▸ List.mem_append_right _ List.mem_cons_self)
          omega

/-- A byte below 80 splits an encoded text between two characters. -/
theorem encode_eq_append {s : String} {x y : Bytes} (hb : b.toNat < 0x80)
    (h : encode s = x ++ b :: y) :
    ∃ t u, s.toList = t.toList ++ u.toList ∧ encode t = x ∧ encode u = b :: y := by
  obtain ⟨xs, ys, hs, hx, hy⟩ := split_at_byte hb h
  refine ⟨String.ofList xs, String.ofList ys, ?_, ?_, ?_⟩
  · rw [String.toList_ofList, String.toList_ofList, hs]
  · rw [encode, String.toList_ofList, hx]
  · rw [encode, String.toList_ofList, hy]

/-- A text whose encoding is a first part of another's is a first part of it. -/
theorem prefix_of_encode_prefix {s t : String} (h : encode s <+: encode t) :
    s.toList <+: t.toList := by
  obtain ⟨rest, hrest⟩ := h
  have hpieces : t.toList.map Piece.char = s.toList.map Piece.char ++ piecesFrom none rest := by
    rw [← piecesFrom_encode, hrest]
    exact (pieces_encode t).symm
  obtain ⟨xs, ys, ht, hs, -⟩ := List.map_eq_append_iff.mp hpieces
  have hxs : xs = s.toList := (List.map_inj_right fun c d hcd => Piece.char.inj hcd).mp hs
  rw [ht, hxs]
  exact List.prefix_append s.toList ys

example : '\n' ∈ (lossy [0xE2, 0x82, 10, 0x98]).toList := by decide

/-! ### Texts of such characters -/

theorem flatMap_ascii {cs : List Char} (h : ∀ c ∈ cs, c.toNat < 0x80) :
    cs.flatMap String.utf8EncodeChar = cs.map fun c => UInt8.ofNat c.toNat := by
  induction cs with
  | nil => rfl
  | cons c cs ih =>
    obtain ⟨hc, hcs⟩ := List.forall_mem_cons.mp h
    rw [List.flatMap_cons, utf8EncodeChar_eq, if_pos (Nat.le_of_lt_succ hc), ih hcs, List.map_cons,
      List.singleton_append]

theorem length_encode_ascii {s : String} (h : ∀ c ∈ s.toList, c.toNat < 0x80) :
    (encode s).length = s.toList.length := by
  rw [encode, flatMap_ascii h, List.length_map]

theorem map_ascii_lt {cs ds : List Char} (hcs : ∀ c ∈ cs, c.toNat < 0x80)
    (hds : ∀ d ∈ ds, d.toNat < 0x80) (h : cs < ds) :
    cs.map (fun c => UInt8.ofNat c.toNat) < ds.map fun d => UInt8.ofNat d.toNat := by
  induction cs generalizing ds with
  | nil =>
    cases ds with
    | nil => exact absurd h (List.lt_irrefl _)
    | cons d ds => exact List.nil_lt_cons _ _
  | cons c cs ih =>
    cases ds with
    | nil => exact absurd h (List.not_lt_nil _)
    | cons d ds =>
      obtain ⟨hc, hcs'⟩ := List.forall_mem_cons.mp hcs
      obtain ⟨hd, hds'⟩ := List.forall_mem_cons.mp hds
      refine List.cons_lt_cons_iff.mpr ?_
      rcases List.cons_lt_cons_iff.mp h with hlt | ⟨rfl, hrest⟩
      · have hcode : c.toNat < d.toNat := hlt
        left
        rw [UInt8.lt_iff_toNat_lt, UInt8.toNat_ofNat', UInt8.toNat_ofNat']
        omega
      · exact .inr ⟨rfl, ih hcs' hds' hrest⟩

/-- Texts of such characters sort like their bytes. -/
theorem encode_lt_encode {s t : String} (hs : ∀ c ∈ s.toList, c.toNat < 0x80)
    (ht : ∀ c ∈ t.toList, c.toNat < 0x80) (h : s.toList < t.toList) : encode s < encode t := by
  rw [encode, encode, flatMap_ascii hs, flatMap_ascii ht]
  exact map_ascii_lt hs ht h

end LoaderBench.Utf8
