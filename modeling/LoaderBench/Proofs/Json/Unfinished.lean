import LoaderBench.Proofs.Json.Pretty
import LoaderBench.Proofs.Json.Truncated

/-!
# Values on several lines that end too early

A reader of a known form notices that the text ends, and nothing else, wherever the written form of a
value is broken off. What would be a mismatch cannot be met before: a member that is missing is missed
only at the closing bracket, a name is compared only at its closing quote, and a whole number that is
broken off is a smaller one of the same sign, so that it stays in its range.
-/

namespace LoaderBench.Json

open LoaderBench.Text

variable {α β δ : Type} {reader : Reader α} {v : Value} {p q s : Input} {depth : Nat}

/-- A reader comes to the end of every text that breaks off a value's written form. -/
def BreaksOff (reader : Reader α) (v : Value) : Prop :=
  ∀ (depth : Nat) (p s : Input), Cut p (prettyText depth v) → skipBlanks s = p → Exhausts (reader s)

theorem BreaksOff.map (h : BreaksOff reader v) (f : α → β) :
    BreaksOff (fun s => do
      let (a, rest) ← reader s
      .ok (f a, rest)) v :=
  fun depth p s hp hs => (h depth p s hp hs).convert f

theorem BreaksOff.field {name : String} {kept : δ → Option α} {keep : δ → α → δ} {draft : δ}
    (h : BreaksOff reader v) : BreaksOff ((Field.of name kept keep reader).read draft) v :=
  h.map (keep draft)

/-! ### Single values -/

theorem breaksOff_text (t : String) : BreaksOff textValue (.text t) := by
  intro depth p s hp hs
  left
  unfold textValue
  rw [hs]
  rcases cut_cons hp with rfl | ⟨q, rfl, hq⟩
  · exact ended_error rfl
  · exact string_cut t hq

theorem breaksOff_variant (variants : List (String × α)) (name : String) :
    BreaksOff (variantValue variants) (.text name) := by
  intro depth p s hp hs
  left
  unfold variantValue
  rw [hs]
  rcases cut_cons hp with rfl | ⟨q, rfl, hq⟩
  · exact ended_error rfl
  · have hbrace : '"' ≠ '\x7b' := by decide
    simp only [if_neg hbrace, if_true]
    exact (string_cut name hq).bind _

/-- Digits that are broken off do not become zero. -/
theorem digits_cut_pos {m n : Nat} (hp : Cut (digits m) (digits n)) : 0 < m := by
  obtain ⟨d, rest, hwhole⟩ := hp
  refine Nat.pos_of_ne_zero fun h0 => ?_
  rw [h0, digits_zero, List.singleton_append] at hwhole
  have hpos : 0 < n := by
    refine Nat.pos_of_ne_zero fun hn => ?_
    rw [hn, digits_zero] at hwhole
    cases hwhole
  obtain ⟨c, cs, hdigits, hzero⟩ := digits_cons hpos
  rw [hdigits] at hwhole
  exact hzero (List.cons.inj hwhole).1

/-- A whole number that is broken off is none, or its sign, or one that is not farther from zero. -/
theorem signed_cut {i : Int} (hp : Cut p (signed i).toList) :
    p = [] ∨ p = ['-'] ∨ ∃ j, p = (signed j).toList ∧ (i ≤ j ∧ j ≤ 0 ∨ 0 ≤ j ∧ j ≤ i) := by
  rw [toList_signed] at hp
  split at hp
  · rcases cut_cons hp with rfl | ⟨q, rfl, hq⟩
    · exact .inl rfl
    rcases digits_cut hq with rfl | ⟨m, hm, rfl⟩
    · exact .inr (.inl rfl)
    have hpos := digits_cut_pos hq
    refine .inr (.inr ⟨-m, ?_, .inl (by omega)⟩)
    rw [toList_signed, if_pos (by omega), Int.natAbs_neg, Int.natAbs_natCast]
  · rcases digits_cut hp with rfl | ⟨m, hm, rfl⟩
    · exact .inl rfl
    refine .inr (.inr ⟨m, ?_, .inr (by omega)⟩)
    rw [toList_signed, if_neg (by omega), Int.natAbs_natCast]

theorem breaksOff_whole (wanted : String) {low high i : Int} (hzero : low ≤ 0 ∧ 0 ≤ high)
    (hrange : low ≤ i ∧ i ≤ high) (hsize : -0x8000000000000000 ≤ i ∧ i < 0x10000000000000000) :
    BreaksOff (wholeValue wanted low high) (.integer i) := by
  intro depth p s hp hs
  rcases signed_cut hp with rfl | rfl | ⟨j, rfl, hj⟩
  · left
    unfold wholeValue
    rw [hs]
    exact ended_error rfl
  · left
    unfold wholeValue
    rw [hs]
    exact ended_error rfl
  · have hread : ReadsBack (wholeValue wanted low high) (.integer j) j :=
      readsBack_integer (takes_whole wanted (by omega) (by omega))
    exact .inr ⟨j, hread.read depth s [] nofun (by rw [hs, List.append_nil]; rfl)⟩

theorem BreaksOff.optional (h : BreaksOff reader v)
    (hfront : ∀ depth, ∃ c cs, prettyText depth v = c :: cs ∧ BeginsValue c) :
    BreaksOff (optionalValue reader) v := by
  intro depth p s hp hs
  have hp' := hp
  obtain ⟨c, cs, hcs, hblank, -, hnull⟩ := hfront depth
  rw [hcs] at hp'
  have hfirst : skipBlanks p = p ∧ ∀ rest, p ≠ 'n' :: rest := by
    rcases cut_cons hp' with rfl | ⟨q, rfl, -⟩
    · exact ⟨rfl, fun rest => nofun⟩
    · exact ⟨skipBlanks_cons hblank q, fun rest heq => hnull (List.cons.inj heq).1⟩
  unfold optionalValue
  rw [hs]
  split
  · rename_i rest
    exact absurd rfl (hfirst.2 rest)
  · exact (h depth p p hp hfirst.1).convert some

/-! ### Blanks -/

theorem EndsNumber.of_begins (h : EndsNumber s) (hp : p <+: s) : EndsNumber p := by
  obtain ⟨rest, rfl⟩ := hp
  cases p with
  | nil => exact nofun
  | cons c p =>
    rintro _ ⟨⟩
    exact h c rfl

theorem Cut.begins {x : Input} (h : Cut p x) : p <+: x := by
  obtain ⟨c, rest, rfl⟩ := h
  exact List.prefix_append _ _

/-- What is left of a line break with its indentation is blank. -/
theorem skipBlanks_cut_newline (hp : Cut p (newline depth)) : skipBlanks p = [] := by
  have hblank : Blank p := fun c hc => blank_newline depth c (hp.begins.mem hc)
  exact hblank.skipBlanks_nil

/-- A text that is broken off after a line break, or within it. -/
theorem skipBlanks_cut {x : Input} (hp : Cut p (newline depth ++ x)) :
    skipBlanks p = [] ∨ ∃ q, p = newline depth ++ q ∧ Cut q x := by
  rcases cut_append hp with hp | ⟨q, rfl, hq⟩
  · exact .inl (skipBlanks_cut_newline hp)
  · exact .inr ⟨q, rfl, hq⟩

theorem skipBlanks_cut_last {c : Char} (hp : Cut p (newline depth ++ [c])) : skipBlanks p = [] := by
  rcases skipBlanks_cut hp with hblanks | ⟨q, rfl, hq⟩
  · exact hblanks
  · rcases cut_cons hq with rfl | ⟨q', rfl, hq'⟩
    · exact skipBlanks_newline depth []
    · exact absurd hq' (not_cut_nil q')

/-- A value that is broken off before its first character, or after it. -/
theorem ReadsBack.cut_front {a : α} (h : ReadsBack reader v a) {x : Input}
    (hp : Cut p (prettyText depth v ++ x)) :
    p = [] ∨ ∃ c q, p = c :: q ∧ BeginsValue c := by
  obtain ⟨c, cs, hcs, hc⟩ := h.front depth
  rw [hcs] at hp
  rcases cut_cons hp with rfl | ⟨q, rfl, -⟩
  · exact .inl rfl
  · exact .inr ⟨c, q, rfl, hc⟩

/-! ### Lists -/

theorem endsNumber_prettyItems (depth : Nat) (vs : List Value) : EndsNumber (prettyItems depth vs) := by
  cases vs with
  | nil => exact (blank_newline depth).endsNumber (endsNumber_bracket [])
  | cons v vs => exact endsNumber_cons (by decide)

theorem items_blanks_ended (hs : skipBlanks s = []) (n : Nat) (first : Bool) :
    Ended (items reader n first s) := by
  cases n with
  | zero => exact ended_error rfl
  | succ n =>
    unfold items nextItem
    rw [hs]
    exact ended_error rfl

theorem items_comma_ended (hs : skipBlanks s = []) (n : Nat) :
    Ended (items reader n false (',' :: s)) := by
  cases n with
  | zero => exact ended_error rfl
  | succ n =>
    have hnext : Ended (nextItem false (',' :: s)) := by
      have hcomma : isBlank ',' = false := by decide
      have hbracket : ',' ≠ ']' := by decide
      unfold nextItem
      rw [skipBlanks_cons hcomma]
      dsimp only
      rw [if_neg hbracket, if_neg Bool.false_ne_true, if_pos rfl, hs]
      exact ended_error rfl
    exact hnext.bind _

/-- An item is broken off, or one that comes later. -/
theorem items_cut_item {a : α} (h : ReadsBack reader v a) (hbreaks : BreaksOff reader v) {x : Input}
    {n : Nat} {first : Bool} (hx : EndsNumber x) (hnext : nextItem first s = .ok (some p))
    (hp : Cut p (prettyText depth v ++ x))
    (hrest : ∀ q n, Cut q x → Ended (items reader n false q)) : Ended (items reader n first s) := by
  cases n with
  | zero => exact ended_error rfl
  | succ n =>
    simp only [items, hnext]
    show Ended (reader p >>= _)
    rcases cut_append hp with hcut | ⟨q, rfl, hq⟩
    · have hblanks : skipBlanks p = p := by
        rcases h.cut_front hp with rfl | ⟨c, q, rfl, hc⟩
        · rfl
        · exact skipBlanks_cons hc.1 q
      exact (hbreaks depth p p hcut hblanks).bind fun a =>
        (items_blanks_ended (s := []) rfl n false).bind _
    · rw [h.read depth _ q (hx.of_begins hq.begins) (h.skipBlanks depth q)]
      exact (hrest q n hq).bind _

theorem items_cut {write : α → Value} {as : List α}
    (h : ∀ a ∈ as, ReadsBack reader (write a) a ∧ BreaksOff reader (write a)) (n : Nat)
    (hp : Cut p (prettyItems depth (as.map write))) : Ended (items reader n false p) := by
  induction as generalizing p n with
  | nil => exact items_blanks_ended (skipBlanks_cut_last hp) n false
  | cons a as ih =>
    obtain ⟨ha, hbreaks⟩ := h a List.mem_cons_self
    have htext : prettyItems depth ((a :: as).map write) =
        ',' :: (newline (depth + 1) ++ (prettyText (depth + 1) (write a) ++
          prettyItems depth (as.map write))) := by
      simp [prettyItems]
    have hx := endsNumber_prettyItems depth (as.map write)
    rw [htext] at hp
    rcases cut_cons hp with rfl | ⟨q, rfl, hq⟩
    · exact items_blanks_ended rfl n false
    rcases skipBlanks_cut hq with hblanks | ⟨q', rfl, hq'⟩
    · exact items_comma_ended hblanks n
    rcases ha.cut_front hq' with rfl | ⟨c, q, rfl, hblank, hclose, -⟩
    · exact items_comma_ended (skipBlanks_newline _ []) n
    · have hbegins : Begins [c] := ⟨c, [], rfl, hblank, hclose⟩
      have hnext := nextItem_comma hbegins (blank_newline (depth + 1)) blank_nil q
      exact items_cut_item ha hbreaks hx hnext hq' fun q n =>
        ih (fun b hb => h b (List.mem_cons_of_mem _ hb)) n

theorem breaksOff_list {write : α → Value} {as : List α}
    (h : ∀ a ∈ as, ReadsBack reader (write a) a ∧ BreaksOff reader (write a)) :
    BreaksOff (listValue reader) (.array (as.map write)) := by
  intro depth p s hp hs
  left
  unfold listValue
  rw [hs]
  cases as with
  | nil =>
    rcases cut_cons hp with rfl | ⟨q, rfl, hq⟩
    · exact ended_error rfl
    rcases cut_cons hq with rfl | ⟨q', rfl, hq'⟩
    · exact ended_error rfl
    · exact absurd hq' (not_cut_nil q')
  | cons a as =>
    obtain ⟨ha, hbreaks⟩ := h a List.mem_cons_self
    have htext : prettyText depth (.array ((a :: as).map write)) =
        '[' :: (newline (depth + 1) ++ (prettyText (depth + 1) (write a) ++
          prettyItems depth (as.map write))) := by
      simp [prettyText]
    have hx := endsNumber_prettyItems depth (as.map write)
    rw [htext] at hp
    rcases cut_cons hp with rfl | ⟨q, rfl, hq⟩
    · exact ended_error rfl
    simp only [if_true]
    rcases skipBlanks_cut hq with hblanks | ⟨q', rfl, hq'⟩
    · exact items_blanks_ended hblanks _ true
    rcases ha.cut_front hq' with rfl | ⟨c, q, rfl, hblank, hclose, -⟩
    · exact items_blanks_ended (skipBlanks_newline _ []) _ true
    · have hbegins : Begins [c] := ⟨c, [], rfl, hblank, hclose⟩
      have hnext := nextItem_first hbegins (blank_newline (depth + 1)) q
      exact items_cut_item ha hbreaks hx hnext hq' fun q n =>
        items_cut (fun b hb => h b (List.mem_cons_of_mem _ hb)) n

/-! ### Records -/

/-- The written form of a member and what comes after it, from the key on. -/
def prettyMember (depth : Nat) (k : String) (v : Value) (rest : Input) : Input :=
  k.toList.flatMap escaped ++ '"' :: ':' :: ' ' :: (prettyText depth v ++ rest)

theorem prettyMembers_cons (depth : Nat) (k : String) (v : Value) (ms : Members) :
    prettyMembers depth ((k, v) :: ms) =
      ',' :: (newline (depth + 1) ++ '"' :: prettyMember (depth + 1) k v (prettyMembers depth ms)) := by
  simp [prettyMembers, stringText, prettyMember]

theorem prettyText_object (depth : Nat) (k : String) (v : Value) (ms : Members) :
    prettyText depth (.object ((k, v) :: ms)) =
      '\x7b' :: (newline (depth + 1) ++
        '"' :: prettyMember (depth + 1) k v (prettyMembers depth ms)) := by
  simp [prettyText, stringText, prettyMember]

theorem endsNumber_prettyMembers (depth : Nat) (ms : Members) :
    EndsNumber (prettyMembers depth ms) := by
  cases ms with
  | nil => exact (blank_newline depth).endsNumber (endsNumber_brace [])
  | cons m ms => exact endsNumber_cons (by decide)

/-- Whether the parts of a record are not read to the end because the text ends. -/
def Halted {γ : Type} (r : Except Stop γ) : Prop :=
  ∃ f, r = .error (.fault f) ∧ f.cause.category = .ended

theorem Ended.placed {γ : Type} {r : Except Fault γ} (h : Ended r) : Halted (placed r) := by
  obtain ⟨f, rfl, hf⟩ := h
  exact ⟨f, rfl, hf⟩

theorem Halted.bind {γ ε : Type} {r : Except Stop γ} (h : Halted r) (f : γ → Except Stop ε) :
    Halted (r >>= f) := by
  obtain ⟨e, rfl, he⟩ := h
  exact ⟨e, rfl, he⟩

variable {form : Form δ α} {draft last : δ} {ms : Members}

theorem members_blanks_halted (hs : skipBlanks s = []) (n : Nat) (first : Bool) (draft : δ) :
    Halted (form.members n first draft s) := by
  cases n with
  | zero => exact ⟨_, rfl, rfl⟩
  | succ n =>
    have hnext : Ended (nextKey first s) := by
      unfold nextKey
      rw [hs]
      exact ended_error rfl
    exact hnext.placed.bind _

theorem members_comma_halted (hs : skipBlanks s = []) (n : Nat) (draft : δ) :
    Halted (form.members n false draft (',' :: s)) := by
  cases n with
  | zero => exact ⟨_, rfl, rfl⟩
  | succ n =>
    have hnext : Ended (nextKey false (',' :: s)) := by
      have hcomma : isBlank ',' = false := by decide
      have hbrace : ',' ≠ '\x7d' := by decide
      unfold nextKey
      rw [skipBlanks_cons hcomma]
      dsimp only
      rw [if_neg hbrace, if_neg Bool.false_ne_true, if_pos rfl, hs]
      exact ended_error rfl
    exact hnext.placed.bind _

/-- The value of a member is broken off, or what comes after it. -/
theorem field_cut {field : Field δ} {mid : δ} (h : ReadsBack (field.read draft) v mid)
    (hbreaks : BreaksOff (field.read draft) v) {x : Input} (hx : EndsNumber x)
    (hp : Cut p (':' :: ' ' :: (prettyText depth v ++ x))) :
    Exhausts (colon p >>= field.read draft) ∨
      ∃ q, Cut q x ∧ (colon p >>= field.read draft) = .ok (mid, q) := by
  have hspace : isBlank ' ' = true := by decide
  have hcolon (q : Input) : colon (':' :: q) = .ok q := rfl
  rcases cut_cons hp with rfl | ⟨q, rfl, hq⟩
  · exact .inl (.inl (ended_error rfl))
  rw [hcolon]
  show Exhausts (field.read draft q) ∨ ∃ q', Cut q' x ∧ field.read draft q = .ok (mid, q')
  obtain ⟨c, cs, hcs, hblank, -⟩ := h.front depth
  rcases cut_cons hq with rfl | ⟨q', rfl, hq'⟩
  · exact .inl (hbreaks depth [] [] ⟨c, cs, hcs⟩ rfl)
  rcases cut_append hq' with hcut | ⟨q, rfl, hrest⟩
  · left
    refine hbreaks depth q' _ hcut ?_
    rw [skipBlanks_blank hspace]
    rcases h.cut_front hq' with rfl | ⟨c, q, rfl, hc⟩
    · rfl
    · exact skipBlanks_cons hc.1 q
  · right
    refine ⟨q, hrest, h.read depth _ q (hx.of_begins hrest.begins) ?_⟩
    rw [skipBlanks_blank hspace, h.skipBlanks]

/-- Every field of a form comes to the end of what breaks off its value. -/
def Form.BreaksOff (form : Form δ α) (ms : Members) : Prop :=
  ∀ m ∈ ms, ∀ field draft, form.fields.find? (·.name == m.1) = some field →
    Json.BreaksOff (field.read draft) m.2

/-- A member is broken off, or one that comes later. -/
theorem members_cut_member {field : Field δ} {k : String} {mid : δ} {n : Nat} {first : Bool}
    (hfield : form.fields.find? (·.name == k) = some field) (hfilled : field.filled draft = false)
    (hread : ReadsBack (field.read draft) v mid) (hbreaks : BreaksOff (field.read draft) v)
    {x : Input} (hx : EndsNumber x) (hkey : nextKey first s = .ok (some p))
    (hp : Cut p (prettyMember depth k v x))
    (hrest : ∀ q n, Cut q x → Halted (form.members n false mid q)) :
    Halted (form.members n first draft s) := by
  cases n with
  | zero => exact ⟨_, rfl, rfl⟩
  | succ n =>
    have hwhole : prettyMember depth k v x =
        (k.toList.flatMap escaped ++ ['"']) ++ ':' :: ' ' :: (prettyText depth v ++ x) := by
      simp [prettyMember]
    have hmember (q : Input) :
        form.member k draft q = placed (colon q >>= field.read draft) := by
      simp only [Form.member, hfield, hfilled, Bool.false_eq_true, if_false]
    rw [hwhole] at hp
    simp only [Form.members, hkey]
    show Halted (placed (string p) >>= _)
    -- Broken off within the key, before the value, within it, or after it.
    rcases cut_append hp with hquote | ⟨q, rfl, hq⟩
    · exact (string_cut k hquote).placed.bind _
    have hstring : string (k.toList.flatMap escaped ++ ['"'] ++ q) = .ok (k, q) := by
      simpa using string_escaped k q
    rw [hstring]
    show Halted (form.member k draft q >>= _)
    rw [hmember]
    rcases field_cut hread hbreaks hx hq with (hended | ⟨mid', hend⟩) | ⟨q', hcut, hvalue⟩
    · exact hended.placed.bind _
    · rw [hend]
      exact members_blanks_halted (s := []) rfl n false mid'
    · rw [hvalue]
      exact hrest q' n hcut

theorem members_cut (h : Fills form draft ms last) (hbreaks : form.BreaksOff ms) (n : Nat)
    (hp : Cut p (prettyMembers depth ms)) : Halted (form.members n false draft p) := by
  induction h generalizing p n with
  | none => exact members_blanks_halted (skipBlanks_cut_last hp) n false _
  | @next draft mid _ field k v ms hfield hfilled hread _ ih =>
    have hx := endsNumber_prettyMembers depth ms
    have hvalue := hbreaks (k, v) List.mem_cons_self field draft hfield
    rw [prettyMembers_cons] at hp
    rcases cut_cons hp with rfl | ⟨q, rfl, hq⟩
    · exact members_blanks_halted rfl n false _
    rcases skipBlanks_cut hq with hblanks | ⟨q', rfl, hq'⟩
    · exact members_comma_halted hblanks n _
    rcases cut_cons hq' with rfl | ⟨q, rfl, hmember⟩
    · exact members_comma_halted (skipBlanks_newline _ []) n _
    · have hkey := nextKey_comma (blank_newline (depth + 1)) blank_nil q
      exact members_cut_member hfield hfilled hread hvalue hx hkey hmember fun q n =>
        ih (fun m hm => hbreaks m (List.mem_cons_of_mem _ hm)) n

theorem Halted.ended {close : Input → Except Fault Input} {rests : Input → Input}
    {r : Except Stop (δ × Input)} (h : Halted r) (finish : δ × Input → Except Stop (α × Input)) :
    Ended (complete close rests (r >>= finish)) := by
  obtain ⟨f, rfl, hf⟩ := h
  exact ended_error hf

theorem Form.reader_brace {form : Form δ α} (hs : skipBlanks s = '\x7b' :: q)
    (hq : ∀ n, Halted (form.members n true form.start q)) : Ended (form.reader s) := by
  unfold Form.reader
  rw [hs]
  exact (hq _).ended _

/-- A record that is broken off is refused, because the text ends. -/
theorem Fills.cut (h : Fills form form.start ms last) (hbreaks : form.BreaksOff ms)
    (hp : Cut p (prettyText depth (.object ms))) (hs : skipBlanks s = p) : Ended (form.reader s) := by
  have hnone (hs : skipBlanks s = []) : Ended (form.reader s) := by
    unfold Form.reader
    rw [hs]
    exact ended_error rfl
  cases h with
  | none =>
    rcases cut_cons hp with rfl | ⟨q, rfl, hq⟩
    · exact hnone hs
    rcases cut_cons hq with rfl | ⟨q', rfl, hq'⟩
    · exact Form.reader_brace hs fun n => members_blanks_halted rfl n true _
    · exact absurd hq' (not_cut_nil q')
  | @next _ mid _ field k v ms hfield hfilled hread hms =>
    have hx := endsNumber_prettyMembers depth ms
    have hvalue := hbreaks (k, v) List.mem_cons_self field form.start hfield
    rw [prettyText_object] at hp
    rcases cut_cons hp with rfl | ⟨q, rfl, hq⟩
    · exact hnone hs
    refine Form.reader_brace hs fun n => ?_
    rcases skipBlanks_cut hq with hblanks | ⟨q', rfl, hq'⟩
    · exact members_blanks_halted hblanks n true _
    rcases cut_cons hq' with rfl | ⟨q, rfl, hmember⟩
    · exact members_blanks_halted (skipBlanks_newline _ []) n true _
    · have hkey := nextKey_first (blank_newline (depth + 1)) q
      exact members_cut_member hfield hfilled hread hvalue hx hkey hmember fun q n =>
        members_cut hms (fun m hm => hbreaks m (List.mem_cons_of_mem _ hm)) n

theorem Fills.breaksOff (h : Fills form form.start ms last) (hbreaks : form.BreaksOff ms) :
    BreaksOff form.reader (.object ms) :=
  fun _ _ _ hp hs => .inl (h.cut hbreaks hp hs)

theorem readAll_ended {text : String} (h : Ended (reader text.toList)) :
    ∃ e, readAll reader text = .error e ∧ e.category = .ended := by
  obtain ⟨f, hf, hended⟩ := h
  refine ⟨f.locate text.toList, ?_, hended⟩
  rw [readAll, hf]

end LoaderBench.Json
