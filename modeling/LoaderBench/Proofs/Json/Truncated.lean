import LoaderBench.Proofs.Json.Torn

/-!
# Texts that end too early

The written form of a scalar or of a flat object may be broken off anywhere, with nothing after it. A
reader then notices that the text ends, and nothing else: it never meets a character that may not stand
there. Only a number that is broken off between its digits is still read, as a shorter one, and then it
is the object around it that finds no end.
-/

namespace LoaderBench.Json

open LoaderBench.Text

section

variable {α β : Type} {r : Except Fault α}

/-- Whether reading fails because the text ends. -/
def Ended (r : Except Fault α) : Prop := ∃ f, r = .error f ∧ f.cause.category = .ended

/-- Whether reading comes to the end of the text: it fails there, or takes all that is left. -/
def Exhausts (r : Except Fault (α × Input)) : Prop := Ended r ∨ ∃ a, r = .ok (a, [])

theorem ended_error {f : Fault} (h : f.cause.category = .ended) :
    Ended (.error f : Except Fault α) := ⟨f, rfl, h⟩

theorem Ended.bind (h : Ended r) (f : α → Except Fault β) : Ended (r >>= f) := by
  obtain ⟨e, rfl, he⟩ := h
  exact ended_error he

theorem Ended.map (h : Ended r) (f : α → β) : Ended (r.map f) := by
  obtain ⟨e, rfl, he⟩ := h
  exact ended_error he

theorem Exhausts.bind {r : Except Fault (α × Input)} (h : Exhausts r)
    {f : α × Input → Except Fault β} (hf : ∀ a, Ended (f (a, []))) : Ended (r >>= f) := by
  rcases h with h | ⟨a, rfl⟩
  · exact h.bind f
  · exact hf a

theorem Exhausts.convert {r : Except Fault (α × Input)} (h : Exhausts r) (f : α → β) :
    Exhausts (r >>= fun x => .ok (f x.1, x.2)) := by
  rcases h with h | ⟨a, rfl⟩
  · exact .inl (h.bind _)
  · exact .inr ⟨f a, rfl⟩

end

variable {p : List Char} {ms : Members}

/-! ### Strings -/

theorem size_append (s t : Input) : size (s ++ t) = size s + size t := by
  induction s with
  | nil => exact (Nat.zero_add _).symm
  | cons c s ih =>
    have hcons (t : Input) : size (c :: t) = c.utf8Size + size t := rfl
    rw [List.cons_append, hcons, hcons, ih]
    omega

theorem size_lt_of_cut {s : Input} (h : Cut p s) : size p < size s := by
  obtain ⟨c, rest, rfl⟩ := h
  have hcons : size (c :: rest) = c.utf8Size + size rest := rfl
  have hpos := c.utf8Size_pos
  rw [size_append, hcons]
  omega

theorem size_controlDigits {c : Char} (hc : c < ' ') : size (controlDigits c) = 4 := by
  have hall : ∀ n < 32, size ((Nat.toDigits 16 n).leftpad 4 '0') = 4 := by decide
  exact hall c.toNat hc

theorem hexEscape_ended {s : Input} (h : size s < 4) : Ended (hexEscape s) := by
  have hshort : hexEscape.short s = ⟨.endInString, 0⟩ := if_pos h
  unfold hexEscape
  split
  · rename_i a b c d rest
    -- Four characters have four bytes at least.
    have hsize : size (a :: b :: c :: d :: rest) =
        a.utf8Size + (b.utf8Size + (c.utf8Size + (d.utf8Size + size rest))) := rfl
    have ha := a.utf8Size_pos
    have hb := b.utf8Size_pos
    have hc := c.utf8Size_pos
    have hd := d.utf8Size_pos
    omega
  · rw [hshort]
    exact ended_error rfl

theorem escape_ended {s : Input} (h : size s < 4) : Ended (escape ('u' :: s)) :=
  (hexEscape_ended h).bind _

theorem stringFrom_backslash_ended {s : Input} (h : Ended (escape s)) :
    Ended (stringFrom 0 ('\\' :: s)) := by
  have hquote : '\\' ≠ '"' := by decide
  simp only [stringFrom, hquote, if_false, if_true]
  exact h.bind _

theorem stringFrom_nil_ended : Ended (stringFrom 0 []) := ended_error rfl

theorem stringFrom_cut_escaped (c : Char) (hp : Cut p (escaped c)) : Ended (stringFrom 0 p) := by
  have hslash : Ended (stringFrom 0 ['\\']) := stringFrom_backslash_ended (ended_error rfl)
  rcases escaped_cases c with ⟨d, -, he⟩ | ⟨hc, he⟩ | ⟨-, -, -, he⟩
  · rw [he] at hp
    rcases cut_cons hp with rfl | ⟨q, rfl, hq⟩
    · exact stringFrom_nil_ended
    · rcases cut_cons hq with rfl | ⟨q', rfl, hq'⟩
      · exact hslash
      · exact absurd hq' (not_cut_nil q')
  · rw [he] at hp
    rcases cut_cons hp with rfl | ⟨q, rfl, hq⟩
    · exact stringFrom_nil_ended
    · rcases cut_cons hq with rfl | ⟨ds, rfl, hds⟩
      · exact hslash
      · have hlt := size_lt_of_cut hds
        rw [size_controlDigits hc] at hlt
        exact stringFrom_backslash_ended (escape_ended hlt)
  · rw [he] at hp
    rcases cut_cons hp with rfl | ⟨q, rfl, hq⟩
    · exact stringFrom_nil_ended
    · exact absurd hq (not_cut_nil q)

theorem stringFrom_cut (cs : List Char) (hp : Cut p (cs.flatMap escaped ++ ['"'])) :
    Ended (stringFrom 0 p) := by
  induction cs generalizing p with
  | nil =>
    rcases cut_cons hp with rfl | ⟨q, rfl, hq⟩
    · exact stringFrom_nil_ended
    · exact absurd hq (not_cut_nil q)
  | cons c cs ih =>
    rw [List.flatMap_cons, List.append_assoc] at hp
    rcases cut_append hp with hc | ⟨q, rfl, hq⟩
    · exact stringFrom_cut_escaped c hc
    · rw [stringFrom_escaped]
      exact (ih hq).map _

theorem string_cut (k : String) (hp : Cut p (k.toList.flatMap escaped ++ ['"'])) :
    Ended (string p) := (stringFrom_cut k.toList hp).bind _

/-! ### Scalars -/

theorem word_cut {w : List Char} (hp : Cut p w) : Ended (word w p) := by
  induction w generalizing p with
  | nil => exact absurd hp (not_cut_nil p)
  | cons e w ih =>
    rcases cut_cons hp with rfl | ⟨q, rfl, hq⟩
    · exact ended_error rfl
    · simpa [word] using ih hq

/-- Digits that are broken off are none, or those of a number that is not greater. -/
theorem digits_cut {n : Nat} (hp : Cut p (digits n)) : p = [] ∨ ∃ m ≤ n, p = digits m := by
  obtain ⟨d, rest, hwhole⟩ := hp
  have hall : ∀ c ∈ p ++ d :: rest, c.isDigit = true := by
    intro c hc
    exact isDigit_of_mem_digits (hwhole ▸ hc)
  cases p with
  | nil => exact .inl rfl
  | cons c cs =>
    right
    have hpos : 0 < n := by
      refine Nat.pos_of_ne_zero fun h0 => ?_
      rw [h0, digits_zero] at hwhole
      have hlen := congrArg List.length hwhole
      simp at hlen
    obtain ⟨c', cs', hfirst, hzero⟩ := digits_cons hpos
    have hc : c' = c := by
      rw [hwhole] at hfirst
      exact (List.cons.inj hfirst).1.symm
    have hdigits : ∀ x ∈ c :: cs, x.isDigit = true :=
      fun x hx => hall x (List.mem_append_left _ hx)
    refine ⟨Nat.ofDigitChars 10 (c :: cs) 0, ?_, (digits_of_cons hdigits (hc ▸ hzero)).symm⟩
    have hvalue := ofDigitChars_digits n
    rw [hwhole, Nat.ofDigitChars_append] at hvalue
    have hle := le_ofDigitChars (d :: rest) (Nat.ofDigitChars 10 (c :: cs) 0)
    omega

theorem number_cut {n : Nat} (negative : Bool) (hn : n < 0x10000000000000000)
    (hp : Cut p (digits n)) : Exhausts (number negative p) := by
  rcases digits_cut hp with rfl | ⟨m, hm, rfl⟩
  · exact .inl (ended_error rfl)
  · have hread := number_digits negative (Nat.lt_of_le_of_lt hm hn) endsNumber_nil
    rw [List.append_nil] at hread
    exact .inr ⟨_, hread⟩

theorem scalar_cut_signed {i : Int} (hi : -0x8000000000000000 ≤ i ∧ i < 0x10000000000000000)
    (hp : Cut p (signed i).toList) : Exhausts (scalar p) := by
  have hsize : i.natAbs < 0x10000000000000000 := by omega
  rw [toList_signed] at hp
  split at hp
  · rcases cut_cons hp with rfl | ⟨q, rfl, hq⟩
    · exact .inl (ended_error rfl)
    · exact (number_cut true hsize hq).convert Scalar.number
  · cases p with
    | nil => exact .inl (ended_error rfl)
    | cons c q =>
      have hc : c.isDigit = true := by
        obtain ⟨d, rest, hwhole⟩ := hp
        exact isDigit_of_mem_digits (hwhole ▸ List.mem_append_left _ List.mem_cons_self)
      rw [scalar_of_isDigit hc]
      exact (number_cut false hsize hp).convert Scalar.number

theorem scalar_cut_cons {c : Char} {cs : List Char} (hp : Cut p (c :: cs))
    (hrest : ∀ q, Cut q cs → Ended (scalar (c :: q))) : Exhausts (scalar p) := by
  rcases cut_cons hp with rfl | ⟨q, rfl, hq⟩
  · exact .inl (ended_error rfl)
  · exact .inl (hrest q hq)

theorem scalar_cut {a : Scalar} (ha : a.Readable) (hp : Cut p (scalarText a)) :
    Exhausts (scalar p) := by
  cases a with
  | null => exact scalar_cut_cons hp fun q hq => (word_cut hq).bind _
  | boolean b =>
    cases b with
    | true => exact scalar_cut_cons hp fun q hq => (word_cut hq).bind _
    | false => exact scalar_cut_cons hp fun q hq => (word_cut hq).bind _
  | number n =>
    cases n with
    | integer i => exact scalar_cut_signed ha hp
    | real x => exact absurd ha id
  | text t => exact scalar_cut_cons hp fun q hq => (string_cut t hq).bind _

theorem value_cut_scalar {a : Scalar} (ha : a.Readable) (hp : Cut p (scalarText a)) (depth : Nat) :
    Exhausts (value depth p) := by
  cases p with
  | nil =>
    cases depth with
    | zero => exact .inl (ended_error rfl)
    | succ depth => exact .inl (ended_error rfl)
  | cons c q =>
    rw [value_scalar (beginsScalar_of_cut ha hp)]
    exact (scalar_cut ha hp).convert Value.scalar

/-! ### Objects -/

theorem pairs_nil_ended {α : Type} (reader : Reader α) (n : Nat) (first : Bool) :
    Ended (pairs reader n first []) := by
  cases n with
  | zero => exact ended_error rfl
  | succ n => exact ended_error rfl

theorem pairs_cut_member {a : Scalar} (ha : a.Readable) {k : String} {depth : Nat}
    (hms : ∀ q n, Cut q (compactMembers ms) → Ended (pairs (value depth) n false q))
    (hp : Cut p (memberText k a (compactMembers ms))) {n : Nat} {first : Bool} {s : Input}
    (hkey : nextKey first s = .ok (some p)) : Ended (pairs (value depth) n first s) := by
  cases n with
  | zero => exact ended_error rfl
  | succ n =>
    rw [memberText_parts] at hp
    simp only [pairs, hkey]
    -- Broken off within the key, before the colon, within the value, or after it.
    rcases cut_append hp with hquote | ⟨q, rfl, hq⟩
    · exact (string_cut k hquote).bind _
    have hstring : string (k.toList.flatMap escaped ++ ['"'] ++ q) = .ok (k, q) := by
      simpa using string_escaped k q
    show Ended (string _ >>= _)
    rw [hstring]
    rcases cut_cons hq with rfl | ⟨q', rfl, hq'⟩
    · exact ended_error rfl
    show Ended (value depth q' >>= _)
    rcases cut_append hq' with hscalar | ⟨q, rfl, hmembers⟩
    · exact (value_cut_scalar ha hscalar depth).bind fun v => (pairs_nil_ended _ n false).bind _
    have hends := endsNumber_cut_append hmembers endsNumber_nil
    rw [List.append_nil] at hends
    rw [value_scalarText depth ha hends]
    exact (hms q n hmembers).bind _

theorem pairs_cut (hflat : Flat ms) (depth n : Nat) (hp : Cut p (compactMembers ms)) :
    Ended (pairs (value depth) n false p) := by
  induction ms generalizing p n with
  | nil =>
    rcases cut_cons hp with rfl | ⟨q, rfl, hq⟩
    · exact pairs_nil_ended _ n false
    · exact absurd hq (not_cut_nil q)
  | cons m ms ih =>
    obtain ⟨k, v⟩ := m
    obtain ⟨a, rfl, ha⟩ := hflat.head
    rw [compactMembers_cons] at hp
    rcases cut_cons hp with rfl | ⟨q, rfl, hq⟩
    · exact pairs_nil_ended _ n false
    rcases cut_cons hq with rfl | ⟨q', rfl, hq'⟩
    · cases n with
      | zero => exact ended_error rfl
      | succ n => exact ended_error rfl
    · exact pairs_cut_member ha (fun q n => ih hflat.tail n) hq' rfl

theorem value_cut_object (hflat : Flat ms) (hp : Cut p (compactText (.object ms))) (depth : Nat) :
    Ended (value (depth + 1) p) := by
  have hopen (q : List Char) (hq : ∀ n, Ended (pairs (value depth) n true q)) :
      Ended (value (depth + 1) ('\x7b' :: q)) := by
    rw [value_brace]
    exact (hq _).bind _
  cases ms with
  | nil =>
    rcases cut_cons hp with rfl | ⟨q, rfl, hq⟩
    · exact ended_error rfl
    rcases cut_cons hq with rfl | ⟨q', rfl, hq'⟩
    · exact hopen [] fun n => pairs_nil_ended _ n true
    · exact absurd hq' (not_cut_nil q')
  | cons m ms =>
    obtain ⟨k, v⟩ := m
    obtain ⟨a, rfl, ha⟩ := hflat.head
    rw [compactText_object] at hp
    rcases cut_cons hp with rfl | ⟨q, rfl, hq⟩
    · exact ended_error rfl
    rcases cut_cons hq with rfl | ⟨q', rfl, hq'⟩
    · exact hopen [] fun n => pairs_nil_ended _ n true
    · exact hopen _ fun n =>
        pairs_cut_member ha (fun q n => pairs_cut hflat.tail depth n) hq' rfl

/-- An object that is broken off is refused, because the text ends. -/
theorem parse_cut (hflat : Flat ms) {text : String}
    (hp : Cut text.toList (compactText (.object ms))) :
    ∃ e, parse text = .error e ∧ e.category = .ended := by
  obtain ⟨f, hf, hended⟩ := value_cut_object hflat hp 126
  refine ⟨f.locate text.toList, ?_, hended⟩
  rw [parse, readAll, nestingLimit, hf]

end LoaderBench.Json
