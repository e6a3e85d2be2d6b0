import LoaderBench.Proofs.Json.Lexeme

/-!
# Flat objects are read back

An object whose values are scalars is read back from its written form, its members in order. The
written form holds no control characters, so that it stands on one line.
-/

namespace LoaderBench.Json

/-- Members whose values are scalars that a text can give back. -/
def Flat (ms : Members) : Prop := ∀ m ∈ ms, ∃ a : Scalar, m.2 = .scalar a ∧ a.Readable

theorem Flat.head {k : String} {v : Value} {ms : Members} (h : Flat ((k, v) :: ms)) :
    ∃ a : Scalar, v = .scalar a ∧ a.Readable := h (k, v) List.mem_cons_self

theorem Flat.tail {m : String × Value} {ms : Members} (h : Flat (m :: ms)) : Flat ms :=
  fun m' hm => h m' (List.mem_cons_of_mem _ hm)

theorem Flat.append {a b : Members} (ha : Flat a) (hb : Flat b) : Flat (a ++ b) := by
  intro m hm
  rcases List.mem_append.mp hm with hm | hm
  · exact ha m hm
  · exact hb m hm

/-! ### One member -/

theorem value_scalar {c : Char} (h : BeginsScalar c) (depth : Nat) (s : Input) :
    value depth (c :: s) = scalar (c :: s) >>= fun r => .ok (.scalar r.1, r.2) := by
  obtain ⟨hblank, hlist, hobject⟩ := h
  simp [value, skipBlanks, hblank, hlist, hobject]

theorem value_scalarText (depth : Nat) {a : Scalar} (ha : a.Readable) {rest : Input}
    (h : EndsNumber rest) : value depth (scalarText a ++ rest) = .ok (.scalar a, rest) := by
  have hread := scalar_scalarText ha h
  obtain ⟨c, cs, hcs, hbegins⟩ := scalarText_cons ha
  rw [hcs, List.cons_append] at hread ⊢
  rw [value_scalar hbegins, hread]
  rfl

/-- The written form of a member and what comes after it, from the key on. -/
def memberText (k : String) (a : Scalar) (rest : Input) : Input :=
  k.toList.flatMap escaped ++ '"' :: ':' :: (scalarText a ++ rest)

theorem memberText_append (k : String) (a : Scalar) (x y : Input) :
    memberText k a x ++ y = memberText k a (x ++ y) := by
  simp [memberText]

/-- The key with its closing quote, and then the value. -/
theorem memberText_parts (k : String) (a : Scalar) (rest : Input) :
    memberText k a rest =
      (k.toList.flatMap escaped ++ ['"']) ++ ':' :: (scalarText a ++ rest) := by
  simp [memberText]

theorem compactMembers_cons (k : String) (a : Scalar) (ms : Members) :
    compactMembers ((k, .scalar a) :: ms) = ',' :: '"' :: memberText k a (compactMembers ms) := by
  simp [compactMembers, compactText, stringText, memberText]

theorem compactText_object (k : String) (a : Scalar) (ms : Members) :
    compactText (.object ((k, .scalar a) :: ms)) =
      '\x7b' :: '"' :: memberText k a (compactMembers ms) := by
  simp [compactText, stringText, memberText]

/-- A member is read, and then the others. -/
theorem pairs_member {depth n : Nat} {first : Bool} {s rest rest' : Input} {k : String} {a : Scalar}
    {ms : Members} (hkey : nextKey first s = .ok (some (memberText k a rest))) (ha : a.Readable)
    (hend : EndsNumber rest) (hrest : pairs (value depth) n false rest = .ok (ms, rest')) :
    pairs (value depth) (n + 1) first s = .ok ((k, .scalar a) :: ms, rest') := by
  have hstring := string_escaped k (':' :: (scalarText a ++ rest))
  have hcolon : colon (':' :: (scalarText a ++ rest)) = .ok (scalarText a ++ rest) := rfl
  have hvalue := value_scalarText depth ha hend
  simp only [pairs, hkey, memberText, bind, Except.bind, hstring, hcolon, hvalue, hrest]

/-! ### All members -/

theorem endsNumber_compactMembers (ms : Members) (rest : Input) :
    EndsNumber (compactMembers ms ++ rest) := by
  cases ms with
  | nil => exact endsNumber_cons (by decide)
  | cons m ms => exact endsNumber_cons (by decide)

theorem length_le_compactMembers (ms : Members) : ms.length ≤ (compactMembers ms).length := by
  induction ms with
  | nil => exact Nat.zero_le _
  | cons m ms ih =>
    obtain ⟨k, v⟩ := m
    simp only [compactMembers, List.length_append, List.length_cons]
    omega

theorem pairs_compactMembers (depth n : Nat) {ms : Members} (hflat : Flat ms) (hn : ms.length < n)
    (rest : Input) :
    pairs (value depth) n false (compactMembers ms ++ rest) = .ok (ms, rest) := by
  induction ms generalizing n with
  | nil =>
    cases n with
    | zero => exact absurd hn (Nat.not_lt_zero _)
    | succ n => rfl
  | cons m ms ih =>
    obtain ⟨k, v⟩ := m
    obtain ⟨a, rfl, ha⟩ := hflat.head
    cases n with
    | zero => exact absurd hn (Nat.not_lt_zero _)
    | succ n =>
      rw [compactMembers_cons, List.cons_append, List.cons_append, memberText_append]
      exact pairs_member rfl ha (endsNumber_compactMembers ms rest)
        (ih n hflat.tail (Nat.lt_of_succ_lt_succ hn))

/-- After an opening brace the members are read, one level deeper. -/
theorem value_brace (depth : Nat) (s : Input) :
    value (depth + 1) ('\x7b' :: s) =
      (pairs (value depth) (s.length + 1) true s >>= fun r => .ok (.object r.1, r.2)) := by
  have hblank : isBlank '\x7b' = false := by decide
  have hbracket : '\x7b' ≠ '[' := by decide
  simp only [value, skipBlanks, List.dropWhile_cons, hblank, Bool.false_eq_true, if_false,
    hbracket, if_true]

theorem value_compactText (depth : Nat) {ms : Members} (hflat : Flat ms) (rest : Input) :
    value (depth + 1) (compactText (.object ms) ++ rest) = .ok (.object ms, rest) := by
  cases ms with
  | nil => rfl
  | cons m ms =>
    obtain ⟨k, v⟩ := m
    obtain ⟨a, rfl, ha⟩ := hflat.head
    have hlen := length_le_compactMembers ms
    have hkey : nextKey true ('"' :: memberText k a (compactMembers ms ++ rest)) =
        .ok (some (memberText k a (compactMembers ms ++ rest))) := rfl
    -- The bound on the members is the length of the text, and each member takes a character.
    have hread := pairs_compactMembers depth
      ('"' :: memberText k a (compactMembers ms ++ rest)).length hflat.tail
      (by simp only [memberText, List.length_cons, List.length_append]; omega) rest
    have hall := pairs_member hkey ha (endsNumber_compactMembers ms rest) hread
    rw [compactText_object, List.cons_append, List.cons_append, memberText_append, value_brace, hall]
    rfl

theorem parse_compact {ms : Members} (hflat : Flat ms) :
    parse (compact (.object ms)) = .ok (.object ms) := by
  have hread := value_compactText 126 hflat []
  rw [List.append_nil] at hread
  have hend : skipBlanks [] = [] := rfl
  simp only [parse, readAll, compact, String.toList_ofList, nestingLimit, hread, hend]

/-! ### One line -/

theorem plain_member (k : String) {a : Scalar} (ha : a.Readable) {rest : List Char}
    (h : Plain rest) : Plain (stringText k ++ ':' :: (scalarText a ++ rest)) := by
  have hvalue : Plain (':' :: (scalarText a ++ rest)) :=
    ((plain_scalarText ha).append h).cons (by decide)
  exact (plain_stringText k).append hvalue

theorem plain_compactMembers {ms : Members} (hflat : Flat ms) : Plain (compactMembers ms) := by
  induction ms with
  | nil => decide
  | cons m ms ih =>
    obtain ⟨k, v⟩ := m
    obtain ⟨a, rfl, ha⟩ := hflat.head
    have hall := (plain_member k ha (ih hflat.tail)).cons (c := ',') (by decide)
    simpa [compactMembers, compactText] using hall

theorem plain_compactText {ms : Members} (hflat : Flat ms) : Plain (compactText (.object ms)) := by
  cases ms with
  | nil => decide
  | cons m ms =>
    obtain ⟨k, v⟩ := m
    obtain ⟨a, rfl, ha⟩ := hflat.head
    have hall := (plain_member k ha (plain_compactMembers hflat.tail)).cons (c := '\x7b') (by decide)
    simpa [compactText] using hall

end LoaderBench.Json
