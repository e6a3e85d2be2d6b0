import LoaderBench.Proofs.Json.Object

/-!
# Objects that are broken off

The written form of an object may be broken off anywhere and be followed by another one. Such a text is
never read. Where a string was broken off, the quote before the first key of the next object ends it,
and the key stands where nothing but a comma, a colon or a bracket may stand. Where a value is missing,
the next object is read in its place, and the outer one stays open. So reading gets stuck, or leaves a
rest at which every reader around it gets stuck: this is what is kept along a row of broken objects.
-/

namespace LoaderBench.Json

open LoaderBench.Text

/-! ### First parts -/

section

variable {α : Type} {a : α} {p x y : List α}

/-- A first part of a list that is not all of it. -/
def Cut (p whole : List α) : Prop := ∃ a rest, whole = p ++ a :: rest

theorem not_cut_nil (p : List α) : ¬ Cut p [] := by
  rintro ⟨a, rest, h⟩
  exact absurd h (List.append_ne_nil_of_right_ne_nil p (List.cons_ne_nil a rest)).symm

theorem cut_cons (h : Cut p (a :: x)) : p = [] ∨ ∃ q, p = a :: q ∧ Cut q x := by
  obtain ⟨b, rest, h⟩ := h
  cases p with
  | nil => exact .inl rfl
  | cons c q =>
    cases h
    exact .inr ⟨q, rfl, b, rest, rfl⟩

theorem cut_append (h : Cut p (x ++ y)) : Cut p x ∨ ∃ q, p = x ++ q ∧ Cut q y := by
  induction x generalizing p with
  | nil => exact .inr ⟨p, rfl, h⟩
  | cons a x ih =>
    rcases cut_cons h with rfl | ⟨q, rfl, hq⟩
    · exact .inl ⟨a, x, rfl⟩
    · rcases ih hq with ⟨b, rest, rfl⟩ | ⟨q', rfl, hy⟩
      · exact .inl ⟨b, rest, rfl⟩
      · exact .inr ⟨q', rfl, hy⟩

theorem cut_or_eq_of_prefix (h : p <+: x) : Cut p x ∨ p = x := by
  obtain ⟨rest, rfl⟩ := h
  cases rest with
  | nil => exact .inr (List.append_nil p).symm
  | cons a rest => exact .inl ⟨a, rest, rfl⟩

end

/-! ### Where readers get stuck -/

variable {s u : Input} {ms : Members}

/-- A text that no object goes on with after a key or a value: it is at its end, or begins with a
character that is none of those expected there. -/
def Stuck (s : Input) : Prop :=
  ∀ c ∈ s.head?, isBlank c = false ∧ c ≠ ':' ∧ c ≠ ',' ∧ c ≠ '\x7d'

theorem stuck_cons {c : Char} (h : isBlank c = false ∧ c ≠ ':' ∧ c ≠ ',' ∧ c ≠ '\x7d') (s : Input) :
    Stuck (c :: s) := by
  rintro _ ⟨⟩
  exact h

theorem colon_stuck (h : Stuck s) (rest : Input) : colon s ≠ .ok rest := by
  cases s with
  | nil => exact nofun
  | cons c s =>
    obtain ⟨hblank, hcolon, -, -⟩ := h c rfl
    simp [colon, skipBlanks, hblank, hcolon]

theorem pairs_stuck {α : Type} (h : Stuck s) (reader : Reader α) (n : Nat)
    (r : List (String × α) × Input) : pairs reader n false s ≠ .ok r := by
  cases n with
  | zero => exact nofun
  | succ n =>
    cases s with
    | nil => exact nofun
    | cons c s =>
      obtain ⟨hblank, -, hcomma, hbrace⟩ := h c rfl
      simp [pairs, nextKey, skipBlanks, hblank, hcomma, hbrace, bind, Except.bind]

/-- What is read of an object that has another member. -/
theorem pairs_ok {α : Type} {reader : Reader α} {n : Nat} {first : Bool} {s s' : Input}
    {r : List (String × α) × Input} (hkey : nextKey first s = .ok (some s'))
    (hread : pairs reader n first s = .ok r) :
    ∃ n' k s₁ s₂ a s₃ r', string s' = .ok (k, s₁) ∧ colon s₁ = .ok s₂ ∧ reader s₂ = .ok (a, s₃) ∧
      pairs reader n' false s₃ = .ok r' := by
  cases n with
  | zero => cases hread
  | succ n =>
    unfold pairs at hread
    obtain ⟨key, hsome, hread⟩ := ok_of_bind hread
    rw [hkey] at hsome
    cases hsome
    obtain ⟨⟨k, s₁⟩, hstring, hread⟩ := ok_of_bind hread
    obtain ⟨s₂, hcolon, hread⟩ := ok_of_bind hread
    obtain ⟨⟨a, s₃⟩, hvalue, hread⟩ := ok_of_bind hread
    obtain ⟨r', hrest, -⟩ := ok_of_bind hread
    exact ⟨n, k, s₁, s₂, a, s₃, r', hstring, hcolon, hvalue, hrest⟩

/-- A text that opens objects, and in the last of them a key that no object goes on with. -/
inductive Opens : Input → Prop where
  | key (s : Input) (h : Stuck s) : Opens ('\x7b' :: '"' :: s)
  | object (s : Input) (h : Opens s) : Opens ('\x7b' :: s)

theorem Opens.brace (h : Opens u) : ∃ s, u = '\x7b' :: s := by
  cases h with
  | key s h => exact ⟨'"' :: s, rfl⟩
  | object s h => exact ⟨s, rfl⟩

theorem stuck_brace (s : Input) : Stuck ('\x7b' :: s) := stuck_cons (by decide) s

theorem Opens.stuck (h : Opens u) : Stuck u := by
  obtain ⟨s, rfl⟩ := h.brace
  exact stuck_brace s

theorem Opens.endsNumber (h : Opens u) : EndsNumber u := by
  obtain ⟨s, rfl⟩ := h.brace
  exact endsNumber_cons (by decide)

/-! ### Strings that are broken off -/

theorem before_ok {c : Char} {r : Except Fault (List Char × Input)} {cs : List Char} {rest : Input}
    (h : before c r = .ok (cs, rest)) : ∃ ds, r = .ok (ds, rest) := by
  obtain ⟨⟨ds, rest'⟩, hr, heq⟩ := map_eq_ok_iff.mp h
  cases heq
  exact ⟨ds, hr⟩

/-- A string goes on to the quote of the first key. -/
theorem stringFrom_opens (h : Opens u) {cs : List Char} {rest : Input}
    (hread : stringFrom 0 u = .ok (cs, rest)) : Stuck rest := by
  have hbrace (s : Input) : stringFrom 0 ('\x7b' :: s) = before '\x7b' (stringFrom 0 s) :=
    stringFrom_plain (by decide) (by decide) (by decide) s
  induction h generalizing cs with
  | key s hs =>
    rw [hbrace] at hread
    cases hread
    exact hs
  | object s _ ih =>
    rw [hbrace] at hread
    obtain ⟨ds, hds⟩ := before_ok hread
    exact ih hds

theorem hexEscape_torn {ds : List Char} (hlen : ds.length < 4) (s : Input) (r : Nat × Input) :
    hexEscape (ds ++ '\x7b' :: s) ≠ .ok r := by
  have hbrace : hexDigit '\x7b' = none := by decide
  unfold hexEscape
  split
  · rename_i a b c d rest heq
    -- The brace is one of the four characters, and no digit.
    have hmem : '\x7b' ∈ [a, b, c, d] := by
      have hfirst : [a, b, c, d] = (ds ++ '\x7b' :: s).take 4 := by
        rw [heq]
        rfl
      have hsome : 4 - ds.length = (4 - ds.length - 1) + 1 := by omega
      rw [hfirst, List.take_append, hsome, List.take_succ_cons]
      exact List.mem_append_right _ List.mem_cons_self
    split
    · rename_i ha hb hc hd
      simp only [List.mem_cons, List.not_mem_nil, or_false] at hmem
      rcases hmem with rfl | rfl | rfl | rfl <;> simp_all
    · exact nofun
  · exact nofun

theorem escape_opens (h : Opens u) (r : Char × Nat) : escape u ≠ .ok r := by
  obtain ⟨s, rfl⟩ := h.brace
  have hlookup : shortEscapes.lookup '\x7b' = none := by decide
  simp [escape, hlookup]

theorem escape_torn_control {ds : List Char} (hlen : ds.length < 4) (h : Opens u) (r : Char × Nat) :
    escape ('u' :: (ds ++ u)) ≠ .ok r := by
  obtain ⟨s, rfl⟩ := h.brace
  intro hread
  simp only [escape] at hread
  obtain ⟨x, hx, -⟩ := ok_of_bind hread
  exact hexEscape_torn hlen s x hx

theorem stringFrom_escape {cs : List Char} {s rest : Input}
    (hread : stringFrom 0 ('\\' :: s) = .ok (cs, rest)) : ∃ r, escape s = .ok r := by
  have hquote : '\\' ≠ '"' := by decide
  simp only [stringFrom, hquote, if_false, if_true] at hread
  obtain ⟨r, hr, -⟩ := ok_of_bind hread
  exact ⟨r, hr⟩

/-- An escape that is broken off is not read, and of one that has not begun nothing is there. -/
theorem stringFrom_torn_escaped (h : Opens u) (c : Char) {p : List Char} (hp : Cut p (escaped c))
    {cs : List Char} {rest : Input} (hread : stringFrom 0 (p ++ u) = .ok (cs, rest)) :
    Stuck rest := by
  have hslash : ∀ s, (∀ r, escape s ≠ .ok r) → stringFrom 0 ('\\' :: s) ≠ .ok (cs, rest) := by
    intro s hs hok
    obtain ⟨r, hr⟩ := stringFrom_escape hok
    exact hs r hr
  rcases escaped_cases c with ⟨d, -, he⟩ | ⟨hc, he⟩ | ⟨-, -, -, he⟩
  · rw [he] at hp
    rcases cut_cons hp with rfl | ⟨q, rfl, hq⟩
    · exact stringFrom_opens h hread
    · rcases cut_cons hq with rfl | ⟨q', rfl, hq'⟩
      · exact absurd hread (hslash u (escape_opens h))
      · exact absurd hq' (not_cut_nil q')
  · rw [he] at hp
    rcases cut_cons hp with rfl | ⟨q, rfl, hq⟩
    · exact stringFrom_opens h hread
    · rcases cut_cons hq with rfl | ⟨ds, rfl, hds⟩
      · exact absurd hread (hslash u (escape_opens h))
      · have hlen : ds.length < 4 := by
          obtain ⟨a, rest, heq⟩ := hds
          have hcount := congrArg List.length heq
          simp only [controlDigits_eq hc, List.length_append, List.length_cons, List.length_nil]
            at hcount
          omega
        exact absurd hread (hslash _ (escape_torn_control hlen h))
  · rw [he] at hp
    rcases cut_cons hp with rfl | ⟨q, rfl, hq⟩
    · exact stringFrom_opens h hread
    · exact absurd hq (not_cut_nil q)

theorem stringFrom_torn (h : Opens u) (cs : List Char) {p : List Char}
    (hp : Cut p (cs.flatMap escaped ++ ['"'])) {ds : List Char} {rest : Input}
    (hread : stringFrom 0 (p ++ u) = .ok (ds, rest)) : Stuck rest := by
  induction cs generalizing p ds with
  | nil =>
    rcases cut_cons hp with rfl | ⟨q, rfl, hq⟩
    · exact stringFrom_opens h hread
    · exact absurd hq (not_cut_nil q)
  | cons c cs ih =>
    rw [List.flatMap_cons, List.append_assoc] at hp
    rcases cut_append hp with hc | ⟨q, rfl, hq⟩
    · exact stringFrom_torn_escaped h c hc hread
    · rw [List.append_assoc, stringFrom_escaped] at hread
      obtain ⟨ds', hds⟩ := before_ok hread
      exact ih hq hds

theorem string_torn (h : Opens u) (k : String) {p : List Char}
    (hp : Cut p (k.toList.flatMap escaped ++ ['"'])) {t : String} {rest : Input}
    (hread : string (p ++ u) = .ok (t, rest)) : Stuck rest := by
  obtain ⟨⟨ds, rest'⟩, hds, heq⟩ := ok_of_bind hread
  cases heq
  exact stringFrom_torn h k.toList hp hds

/-! ### Scalars that are broken off -/

theorem word_torn {w p : List Char} (hp : Cut p w) (hw : '\x7b' ∉ w) (s r : Input) :
    word w (p ++ '\x7b' :: s) ≠ .ok r := by
  induction w generalizing p with
  | nil => exact absurd hp (not_cut_nil p)
  | cons e w ih =>
    have he : '\x7b' ≠ e := fun he => hw (he ▸ List.mem_cons_self)
    have hw' : '\x7b' ∉ w := fun hmem => hw (List.mem_cons_of_mem _ hmem)
    rcases cut_cons hp with rfl | ⟨q, rfl, hq⟩
    · simp [word, he]
    · simpa [word] using ih hq hw'

theorem fraction_brace {negative : Bool} {significand dropped : Nat} {s rest : Input} {n : Number}
    (hread : fraction negative significand dropped ('\x7b' :: s) = .ok (n, rest)) :
    rest = '\x7b' :: s := by
  have hreal {significand : Nat} {scale : Int} {s rest : Input}
      (hread : real negative significand scale s = .ok (n, rest)) : rest = s := by
    unfold real at hread
    split at hread
    · cases hread
      rfl
    · cases hread
  have hexponent : ¬ ('\x7b' = 'e' ∨ '\x7b' = 'E') := by decide
  unfold fraction at hread
  split at hread
  · rename_i heq
    cases heq
  · rename_i heq
    cases heq
    rw [if_neg hexponent] at hread
    split at hread
    · cases hread
      rfl
    · exact hreal hread
  · rename_i heq
    cases heq

theorem number_torn {negative : Bool} {ds : List Char} (hds : ∀ d ∈ ds, d.isDigit = true)
    {s rest : Input} {n : Number} (hread : number negative (ds ++ '\x7b' :: s) = .ok (n, rest)) :
    rest = '\x7b' :: s := by
  cases ds with
  | nil =>
    have hzero : '\x7b' ≠ '0' := by decide
    have hdigit : '\x7b'.isDigit = false := by decide
    simp [number, hzero, hdigit] at hread
  | cons c cs =>
    obtain ⟨hc, hcs⟩ := List.forall_mem_cons.mp hds
    have hdrop : (c :: (cs ++ '\x7b' :: s)).dropWhile Char.isDigit = '\x7b' :: s := by
      rw [← List.cons_append, List.dropWhile_append_of_pos hds]
      rfl
    by_cases hzero : c = '0'
    · cases cs with
      | nil =>
        have hdigit : '\x7b'.isDigit = false := by decide
        simp only [List.cons_append, List.nil_append, number, hzero, if_true, hdigit,
          Bool.false_eq_true, if_false] at hread
        exact fraction_brace hread
      | cons d cs =>
        have hd := hcs d List.mem_cons_self
        simp [number, hzero, hd] at hread
    · simp only [List.cons_append, number, hzero, if_false, hc, if_true, hdrop] at hread
      exact fraction_brace hread

theorem beginsScalar_of_cut {a : Scalar} (ha : a.Readable) {c : Char} {q : List Char}
    (hp : Cut (c :: q) (scalarText a)) : BeginsScalar c := by
  obtain ⟨c', cs, hcs, hbegins⟩ := scalarText_cons ha
  obtain ⟨d, rest, heq⟩ := hp
  rw [hcs] at heq
  rwa [← (List.cons.inj heq).1]

theorem scalar_torn {a b : Scalar} (ha : a.Readable) (h : Opens u) {p rest : Input}
    (hp : Cut p (scalarText a)) (hne : p ≠ []) (hread : scalar (p ++ u) = .ok (b, rest)) :
    Stuck rest := by
  obtain ⟨s, rfl⟩ := h.brace
  cases a with
  | null =>
    obtain ⟨q, rfl, hq⟩ := (cut_cons hp).resolve_left hne
    obtain ⟨r, hr, -⟩ := ok_of_bind hread
    exact absurd hr (word_torn hq (by decide) s r)
  | boolean b =>
    cases b with
    | true =>
      obtain ⟨q, rfl, hq⟩ := (cut_cons hp).resolve_left hne
      obtain ⟨r, hr, -⟩ := ok_of_bind hread
      exact absurd hr (word_torn hq (by decide) s r)
    | false =>
      obtain ⟨q, rfl, hq⟩ := (cut_cons hp).resolve_left hne
      obtain ⟨r, hr, -⟩ := ok_of_bind hread
      exact absurd hr (word_torn hq (by decide) s r)
  | number n =>
    cases n with
    | real x => exact absurd ha id
    | integer i =>
      have hdigits {ds : List Char} (hds : Cut ds (digits i.natAbs)) : ∀ d ∈ ds, d.isDigit = true := by
        obtain ⟨d, rest, heq⟩ := hds
        intro d hd
        exact isDigit_of_mem_digits (heq ▸ List.mem_append_left _ hd)
      have htext : Cut p (if i < 0 then '-' :: digits i.natAbs else digits i.natAbs) := by
        rw [← toList_signed]
        exact hp
      split at htext
      · obtain ⟨ds, rfl, hds⟩ := (cut_cons htext).resolve_left hne
        obtain ⟨⟨n, r⟩, hr, heq⟩ := ok_of_bind hread
        cases heq
        rw [number_torn (hdigits hds) hr]
        exact stuck_brace s
      · cases p with
        | nil => exact absurd rfl hne
        | cons c ds =>
          rw [List.cons_append, scalar_of_isDigit (hdigits htext c List.mem_cons_self)] at hread
          obtain ⟨⟨n, r⟩, hr, heq⟩ := ok_of_bind hread
          cases heq
          rw [number_torn (hdigits htext) hr]
          exact stuck_brace s
  | text t =>
    obtain ⟨q, rfl, hq⟩ := (cut_cons hp).resolve_left hne
    obtain ⟨⟨t', r⟩, hr, heq⟩ := ok_of_bind hread
    cases heq
    exact string_torn h t hq hr

/-! ### Objects that are broken off -/

/-- A number is over where the members after it are broken off, if it is over before what follows. -/
theorem endsNumber_cut_append {q : Input} (hq : Cut q (compactMembers ms)) (hu : EndsNumber u) :
    EndsNumber (q ++ u) := by
  cases q with
  | nil => exact hu
  | cons c q =>
    obtain ⟨d, rest, hwhole⟩ := hq
    have hall := endsNumber_compactMembers ms []
    rw [List.append_nil, hwhole] at hall
    exact endsNumber_cons (hall c rfl)

/-- A text that no object goes on from: it begins like an object, and what is left after reading any
value off its front leaves nothing to go on with. -/
structure Jams (u : Input) : Prop where
  opens : Opens u
  stuck : ∀ depth v rest, value depth u = .ok (v, rest) → Stuck rest

namespace Jams

variable (h : Jams u)

include h

theorem value_torn {a : Scalar} (ha : a.Readable) {p : List Char} (hp : Cut p (scalarText a))
    {depth : Nat} {v : Value} {rest : Input} (hread : value depth (p ++ u) = .ok (v, rest)) :
    Stuck rest := by
  cases p with
  | nil => exact h.stuck depth v rest hread
  | cons c q =>
    rw [List.cons_append, value_scalar (beginsScalar_of_cut ha hp)] at hread
    obtain ⟨⟨b, r⟩, hr, heq⟩ := ok_of_bind hread
    cases heq
    exact scalar_torn ha h.opens hp (List.cons_ne_nil c q) hr

theorem pairs_torn_member {a : Scalar} (ha : a.Readable) {k : String} {depth : Nat}
    (hms : ∀ p n r, Cut p (compactMembers ms) → pairs (value depth) n false (p ++ u) ≠ .ok r)
    {p : List Char} (hp : Cut p (memberText k a (compactMembers ms))) {n : Nat} {first : Bool}
    {s : Input} (hkey : nextKey first s = .ok (some (p ++ u))) (r : Members × Input) :
    pairs (value depth) n first s ≠ .ok r := by
  intro hread
  obtain ⟨n', k', s₁, s₂, v, s₃, ms', hstring, hcolon, hvalue, hrest⟩ := pairs_ok hkey hread
  rw [memberText_parts] at hp
  -- Broken off within the key, before the colon, within the value, or after it.
  rcases cut_append hp with hquote | ⟨q, rfl, hq⟩
  · exact colon_stuck (string_torn h.opens k hquote hstring) s₂ hcolon
  have hkeyText : k.toList.flatMap escaped ++ ['"'] ++ q ++ u =
      k.toList.flatMap escaped ++ '"' :: (q ++ u) := by simp
  rw [hkeyText, string_escaped] at hstring
  cases hstring
  rcases cut_cons hq with rfl | ⟨q', rfl, hq'⟩
  · exact colon_stuck h.opens.stuck s₂ hcolon
  cases hcolon
  rcases cut_append hq' with hscalar | ⟨q, rfl, hmembers⟩
  · exact pairs_stuck (h.value_torn ha hscalar hvalue) _ n' _ hrest
  have hends := endsNumber_cut_append hmembers h.opens.endsNumber
  have hscalar := value_scalarText depth ha hends
  rw [← List.append_assoc] at hscalar
  cases hscalar.symm.trans hvalue
  exact hms q n' _ hmembers hrest

theorem pairs_torn (hflat : Flat ms) {depth : Nat} (p : List Char) (n : Nat) (r : Members × Input)
    (hp : Cut p (compactMembers ms)) : pairs (value depth) n false (p ++ u) ≠ .ok r := by
  induction ms generalizing p n r with
  | nil =>
    rcases cut_cons hp with rfl | ⟨q, rfl, hq⟩
    · exact pairs_stuck h.opens.stuck _ n r
    · exact absurd hq (not_cut_nil q)
  | cons m ms ih =>
    obtain ⟨k, v⟩ := m
    obtain ⟨a, rfl, ha⟩ := hflat.head
    obtain ⟨s, hs⟩ := h.opens.brace
    rw [compactMembers_cons] at hp
    rcases cut_cons hp with rfl | ⟨q, rfl, hq⟩
    · exact pairs_stuck h.opens.stuck _ n r
    rcases cut_cons hq with rfl | ⟨q', rfl, hq'⟩
    · intro hread
      rw [hs] at hread
      cases n with
      | zero => cases hread
      | succ n => cases hread
    · exact h.pairs_torn_member ha (fun p n r => ih hflat.tail p n r) hq' rfl r

theorem value_torn_object (hflat : Flat ms) {p : List Char} (hp : Cut p (compactText (.object ms)))
    (hne : p ≠ []) (depth : Nat) (r : Value × Input) : value depth (p ++ u) ≠ .ok r := by
  obtain ⟨s, hs⟩ := h.opens.brace
  have hvalue (q : List Char) (hq : ∀ depth n r, pairs (value depth) n true (q ++ u) ≠ .ok r) :
      value depth ('\x7b' :: q ++ u) ≠ .ok r := by
    intro hread
    cases depth with
    | zero => cases hread
    | succ depth =>
      rw [List.cons_append, value_brace] at hread
      obtain ⟨r', hr, -⟩ := ok_of_bind hread
      exact hq _ _ r' hr
  -- Nothing but a key or the closing brace may stand after the opening one.
  have hopening : ∀ depth n r, pairs (value depth) n true ([] ++ u) ≠ .ok r := by
    intro depth n r hread
    rw [hs] at hread
    cases n <;> cases hread
  cases ms with
  | nil =>
    obtain ⟨q, rfl, hq⟩ := (cut_cons hp).resolve_left hne
    rcases cut_cons hq with rfl | ⟨q', rfl, hq'⟩
    · exact hvalue [] hopening
    · exact absurd hq' (not_cut_nil q')
  | cons m ms =>
    obtain ⟨k, v⟩ := m
    obtain ⟨a, rfl, ha⟩ := hflat.head
    rw [compactText_object] at hp
    obtain ⟨q, rfl, hq⟩ := (cut_cons hp).resolve_left hne
    rcases cut_cons hq with rfl | ⟨q', rfl, hq'⟩
    · exact hvalue [] hopening
    · exact hvalue _ fun depth n r =>
        h.pairs_torn_member ha (fun p n r => h.pairs_torn hflat.tail p n r) hq' rfl r

end Jams

/-! ### Rows of objects -/

/-- Members of a flat object whose first key begins with a character that no object goes on with. -/
structure Headed (ms : Members) : Prop where
  flat : Flat ms
  key : ∃ s, compactText (.object ms) = '\x7b' :: '"' :: s ∧ Stuck s

theorem Headed.jams (h : Headed ms) : Jams (compactText (.object ms)) := by
  obtain ⟨s, hs, hstuck⟩ := h.key
  refine ⟨hs ▸ .key s hstuck, fun depth v rest hread => ?_⟩
  cases depth with
  | zero =>
    rw [hs] at hread
    cases hread
  | succ depth =>
    have hwhole := value_compactText depth h.flat []
    rw [List.append_nil] at hwhole
    cases hwhole.symm.trans hread
    exact nofun

/-- A first part of an object before a text that jams makes up another such text. -/
theorem Jams.torn (h : Jams u) (hms : Headed ms) {p : List Char} (hne : p ≠ [])
    (hp : p <+: compactText (.object ms)) : Jams (p ++ u) := by
  constructor
  · -- The first part ends before the quote of the key, or right after it, or within the key.
    obtain ⟨s, hs, hstuck⟩ := hms.key
    obtain ⟨rest, hwhole⟩ := hp
    rw [hs] at hwhole
    rcases p with _ | ⟨c, _ | ⟨d, q⟩⟩
    · exact absurd rfl hne
    · cases hwhole
      exact .object u h.opens
    · cases hwhole
      refine .key (q ++ u) ?_
      cases q with
      | nil => exact h.opens.stuck
      | cons c q => exact stuck_cons (hstuck c rfl) (q ++ u)
  · intro depth v rest hread
    rcases cut_or_eq_of_prefix hp with hcut | rfl
    · exact absurd hread (h.value_torn_object hms.flat hcut hne depth (v, rest))
    · cases depth with
      | zero =>
        obtain ⟨s, hs, -⟩ := hms.key
        rw [hs] at hread
        cases hread
      | succ depth =>
        cases (value_compactText depth hms.flat u).symm.trans hread
        exact h.opens.stuck

/-- No text is read that begins with a first part of an object, or with a whole one, and goes on with a
text that jams. -/
theorem Jams.parse_torn (h : Jams u) (hms : Headed ms) {p : List Char} (hne : p ≠ [])
    (hp : p <+: compactText (.object ms)) (v : Value) : parse (String.ofList (p ++ u)) ≠ .ok v := by
  intro hparse
  obtain ⟨s, rfl⟩ := h.opens.brace
  simp only [parse, readAll, String.toList_ofList] at hparse
  rcases cut_or_eq_of_prefix hp with hcut | rfl
  · have hvalue := h.value_torn_object hms.flat hcut hne nestingLimit
    cases hread : value nestingLimit (p ++ '\x7b' :: s) with
    | error f =>
      rw [hread] at hparse
      cases hparse
    | ok r => exact hvalue r hread
  · rw [nestingLimit, value_compactText 126 hms.flat] at hparse
    cases hparse

end LoaderBench.Json
