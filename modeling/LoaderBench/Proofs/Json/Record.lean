import LoaderBench.Proofs.Json.Layout

/-!
# Records are read in every layout

What an object does to a record is told by its members alone: each takes the draft one field further,
is passed over, or ends the reading. The members are read one after another through whatever layout the
object has (`Goes`), up to the closing brace or to a member that is refused (`Halts`).
-/

namespace LoaderBench.Json

variable {α β δ : Type} {form : Form δ α} {draft mid last : δ} {m : String × Input}
  {ms after : List (String × Input)} {w trail t : Input} {a : α}

/-! ### One member -/

/-- What a member does that is taken or passed over. -/
inductive Admits (form : Form δ α) (draft : δ) : String × Input → δ → Prop where
  | field {field : Field δ} {k : String} {w : Input} {mid : δ}
      (hfield : form.fields.find? (·.name == k) = some field) (hempty : field.filled draft = false)
      (hread : Takes (field.read draft) w mid) : Admits form draft (k, w) mid
  | extra {k : String} {w : Input} (hnone : form.fields.find? (·.name == k) = none)
      (hvalue : IsValue w) : Admits form draft (k, w) draft

/-- Whether a member is refused: it comes again, or its value is refused. -/
inductive Halts (form : Form δ α) (draft : δ) : String × Input → Prop where
  | repeated {field : Field δ} {k : String} {w : Input}
      (hfield : form.fields.find? (·.name == k) = some field) (hfilled : field.filled draft = true) :
      Halts form draft (k, w)
  | refused {field : Field δ} {k : String} {w : Input}
      (hfield : form.fields.find? (·.name == k) = some field) (hempty : field.filled draft = false)
      (hread : Refuses (field.read draft) w) : Halts form draft (k, w)

/-- The reading of a record's parts ends with a mismatch. -/
def Dismissed {γ : Type} (r : Except Stop γ) : Prop :=
  (∃ m rest, r = .error (.mismatch m rest)) ∨
    ∃ f, r = .error (.fault f) ∧ f.cause.category = .mismatch

theorem Dismissed.bind {γ ε : Type} {r : Except Stop γ} (h : Dismissed r) (f : γ → Except Stop ε) :
    Dismissed (r >>= f) := by
  rcases h with ⟨m, rest, rfl⟩ | ⟨fault, rfl, hcategory⟩
  · exact .inl ⟨m, rest, rfl⟩
  · exact .inr ⟨fault, rfl, hcategory⟩

theorem Dismissed.complete {r : Except Stop (α × Input)} (h : Dismissed r)
    (close : Input → Except Fault Input) (rests : Input → Input) :
    Mismatched (complete close rests r) := by
  rcases h with ⟨m, rest, rfl⟩ | ⟨fault, rfl, hcategory⟩
  · exact ⟨_, rfl, rfl⟩
  · exact ⟨fault, rfl, hcategory⟩

theorem placed_ok {γ : Type} (c : γ) : placed (.ok c) = .ok c := rfl

theorem placed_error {γ : Type} (f : Fault) : placed (.error f : Except Fault γ) = .error (.fault f) := rfl

theorem Admits.member {k : String} {b b' : Input} {rest : Input} (h : Admits form draft (k, w) mid)
    (hb : Blank b) (hb' : Blank b') (hrest : EndsNumber rest) :
    form.member k draft (b ++ ':' :: (b' ++ (w ++ rest))) = .ok (mid, rest) := by
  have hcolon := colon_blanks hb (b' ++ (w ++ rest))
  cases h with
  | field hfield hempty hread =>
    have hvalue := hread.read _ rest hrest ((hb'.skipBlanks _).trans (hread.begins.skipBlanks rest))
    simp only [Form.member, hfield, hempty, Bool.false_eq_true, if_false, bind, Except.bind, hcolon,
      hvalue, placed_ok]
  | extra hnone hvalue =>
    have hskip := hvalue.skip hrest ((hb'.skipBlanks _).trans (hvalue.begins.skipBlanks rest))
    simp only [Form.member, hnone, bind, Except.bind, hcolon, hskip, placed_ok]

theorem Halts.member {k : String} {b b' : Input} {rest : Input} (h : Halts form draft (k, w))
    (hb : Blank b) (hb' : Blank b') (hrest : EndsNumber rest) :
    Dismissed (form.member k draft (b ++ ':' :: (b' ++ (w ++ rest)))) := by
  have hcolon := colon_blanks hb (b' ++ (w ++ rest))
  cases h with
  | repeated hfield hfilled =>
    refine .inl ⟨.repeated k, b ++ ':' :: (b' ++ (w ++ rest)), ?_⟩
    simp only [Form.member, hfield, hfilled, if_true]
  | refused hfield hempty hread =>
    obtain ⟨f, hf, hcategory⟩ :=
      hread.refuse _ rest hrest ((hb'.skipBlanks _).trans (hread.begins.skipBlanks rest))
    refine .inr ⟨f, ?_, hcategory⟩
    simp only [Form.member, hfield, hempty, Bool.false_eq_true, if_false, bind, Except.bind, hcolon,
      hf, placed_error]

/-! ### All members -/

/-- Members that take a draft to another, one after another. -/
inductive Goes (form : Form δ α) : δ → List (String × Input) → δ → Prop where
  | none {draft : δ} : Goes form draft [] draft
  | next {draft mid last : δ} {m : String × Input} {ms : List (String × Input)}
      (hm : Admits form draft m mid) (h : Goes form mid ms last) : Goes form draft (m :: ms) last

theorem endsNumber_brace (rest : Input) : EndsNumber ('\x7d' :: rest) := endsNumber_cons (by decide)

theorem nextKey_first {b : Input} (hb : Blank b) (s : Input) :
    nextKey true (b ++ '"' :: s) = .ok (some s) := by
  have hquote : isBlank '"' = false := by decide
  rw [nextKey, hb.skipBlanks, skipBlanks_cons hquote]
  rfl

theorem nextKey_comma {b : Input} (hb : Blank b) (htrail : Blank trail) (s : Input) :
    nextKey false (trail ++ ',' :: (b ++ '"' :: s)) = .ok (some s) := by
  have hcomma : isBlank ',' = false := by decide
  have hquote : isBlank '"' = false := by decide
  have hbrace : ',' ≠ '\x7d' := by decide
  rw [nextKey, htrail.skipBlanks, skipBlanks_cons hcomma]
  dsimp only
  rw [if_neg hbrace, if_neg Bool.false_ne_true, if_pos rfl, hb.skipBlanks, skipBlanks_cons hquote]
  rfl

/-- The first member is read as if it followed a comma. -/
theorem members_first (form : Form δ α) {b : Input} (hb : Blank b) (n : Nat) (draft : δ)
    (s : Input) : form.members (n + 1) true draft (b ++ '"' :: s) =
      form.members (n + 1) false draft (',' :: (b ++ '"' :: s)) := by
  have hcomma := nextKey_comma hb blank_nil s
  rw [List.nil_append] at hcomma
  rw [Form.members, nextKey_first hb, Form.members, hcomma]
  rfl

/-- What follows a part begins with the next member, which is read, and then the others. -/
theorem members_next (form : Form δ α) (h : Following '\x7d' KeyedText (m :: after) t)
    (htrail : Blank trail) :
    ∃ b b' blanks u, Blank b ∧ Blank b' ∧ Blank blanks ∧ Following '\x7d' KeyedText after u ∧
      ∀ n draft rest, form.members (n + 1) false draft (trail ++ (t ++ rest)) =
        (form.member m.1 draft (b ++ ':' :: (b' ++ (m.2 ++ (blanks ++ (u ++ rest)))))).bind
          fun (draft, s) => form.members n false draft s := by
  cases h with
  | @next _ _ s u hs hfollowing =>
    obtain ⟨b, k, b', _, hb, hk, hb', ⟨b'', blanks, hb'', hblanks, rfl⟩, rfl⟩ := hs
    refine ⟨b', b'', blanks, u, hb', hb'', hblanks, hfollowing, fun n draft rest => ?_⟩
    have htext : trail ++ (',' :: (b ++ '"' :: (k ++ '"' :: (b' ++ ':' ::
        (b'' ++ (m.2 ++ blanks)))) ++ u) ++ rest) = trail ++ ',' :: (b ++ '"' :: (k ++ '"' ::
          (b' ++ ':' :: (b'' ++ (m.2 ++ (blanks ++ (u ++ rest))))))) := by
      simp only [List.cons_append, List.append_assoc]
    rw [htext, Form.members, nextKey_comma hb htrail]
    simp only [placed_ok, bind, Except.bind, hk.string]

theorem members_close (first : Bool) (htrail : Blank trail) (n : Nat) (draft : δ) (rest : Input) :
    form.members (n + 1) first draft (trail ++ '\x7d' :: rest) = .ok (draft, trail ++ '\x7d' :: rest) := by
  have hclose : isBlank '\x7d' = false := by decide
  have hkey : nextKey first (trail ++ '\x7d' :: rest) = .ok none := by
    rw [nextKey, htrail.skipBlanks, skipBlanks_cons hclose]
    rfl
  simp only [Form.members, hkey, placed_ok, bind, Except.bind]

/-- After the opening brace, members are read as they are after a comma. -/
theorem members_opened (form : Form δ α) (h : ObjectText ms w) :
    ∃ body, w = '\x7b' :: body ∧ ms.length ≤ body.length ∧
      ∃ trail t, Blank trail ∧ Following '\x7d' KeyedText ms t ∧
        ∀ n draft rest, form.members (n + 1) true draft (body ++ rest) =
          form.members (n + 1) false draft (trail ++ (t ++ rest)) := by
  cases h with
  | @empty b hb =>
    refine ⟨_, rfl, Nat.zero_le _, b, ['\x7d'], hb, .closes, fun n draft rest => ?_⟩
    rw [List.append_assoc, List.singleton_append, members_close true hb]
    -- Nothing is read but the brace, which stays in both cases.
    exact (members_close false hb n draft rest).symm
  | @parts m ms s t hm hfollowing =>
    refine ⟨_, rfl, ?_, [], _, blank_nil, .next hm hfollowing, fun n draft rest => ?_⟩
    · have hlen := hfollowing.length_lt
      simp only [List.length_cons, List.length_append]
      omega
    · obtain ⟨b, k, b', v, hb, -, -, -, rfl⟩ := hm
      have hfirst := members_first form hb n draft (k ++ '"' :: (b' ++ ':' :: v) ++ (t ++ rest))
      simpa only [List.nil_append, List.cons_append, List.append_assoc] using hfirst

/-- Members that take the draft further are read, and then those that follow them. -/
theorem Goes.members (h : Goes form draft ms mid)
    (hwhole : Following '\x7d' KeyedText (ms ++ after) t) (htrail : Blank trail) (rest : Input) :
    ∃ trail' t', Blank trail' ∧ Following '\x7d' KeyedText after t' ∧
      ∀ n, form.members (ms.length + n) false draft (trail ++ (t ++ rest)) =
        form.members n false mid (trail' ++ (t' ++ rest)) := by
  induction h generalizing t trail with
  | none =>
    refine ⟨trail, t, htrail, hwhole, fun n => ?_⟩
    rw [List.length_nil, Nat.zero_add]
  | @next draft mid last m ms hm _ ih =>
    obtain ⟨b, b', blanks, u, hb, hb', hblanks, hfollowing, hnext⟩ := members_next form hwhole htrail
    obtain ⟨trail', t', htrail', hafter, hmembers⟩ := ih hfollowing hblanks
    refine ⟨trail', t', htrail', hafter, fun n => ?_⟩
    have hmember := hm.member hb hb'
      (hblanks.endsNumber (hfollowing.endsNumber (endsNumber_brace rest)))
    rw [List.length_cons, Nat.add_right_comm, hnext, hmember]
    exact hmembers n

/-! ### Whole records -/

/-- A record is read up to the members that follow those which take its draft further. -/
theorem Goes.reader (h : Goes form form.start ms mid) (hobject : ObjectText (ms ++ after) w)
    {s rest : Input} (hs : skipBlanks s = w ++ rest) :
    ∃ n trail t, Blank trail ∧ Following '\x7d' KeyedText after t ∧
      form.reader s = complete closeObject objectEnd
        ((form.members (n + 1) false mid (trail ++ (t ++ rest))).bind fun (draft, s) =>
          match form.finish draft with
          | .ok a => .ok (a, s)
          | .error m => .error (.mismatch m s)) := by
  obtain ⟨body, rfl, hlen, trail, t, htrail, hfollowing, hopened⟩ := members_opened form hobject
  obtain ⟨trail', t', htrail', hafter, hmembers⟩ := h.members hfollowing htrail rest
  rw [List.length_append] at hlen
  -- The bound on the members is the length of the text, and each member takes a character.
  obtain ⟨n, hn⟩ : ∃ n, (body ++ rest).length + 1 = ms.length + (n + 1) :=
    ⟨(body ++ rest).length - ms.length, by rw [List.length_append]; omega⟩
  refine ⟨n, trail', t', htrail', hafter, ?_⟩
  rw [List.cons_append] at hs
  simp only [Form.reader, hs, if_true, Form.ofMembers]
  rw [hopened, hn, hmembers]
  rfl

theorem begins_object (h : ObjectText ms w) : Begins w := by
  cases h <;> exact ⟨'\x7b', _, rfl, by decide, by decide⟩

/-- A record is read from an object whose members tell it. -/
theorem Goes.takes (h : Goes form form.start ms last) (hobject : ObjectText ms w)
    (hfinish : form.finish last = .ok a) : Takes form.reader w a := by
  refine ⟨begins_object hobject, fun s rest _ hs => ?_⟩
  rw [← List.append_nil ms] at hobject
  obtain ⟨n, trail, t, htrail, hclose, hreader⟩ := h.reader hobject hs
  have hbrace : isBlank '\x7d' = false := by decide
  have hend : closeObject (trail ++ '\x7d' :: rest) = .ok rest := by
    rw [closeObject, htrail.skipBlanks, skipBlanks_cons hbrace]
    rfl
  cases hclose
  rw [hreader, List.singleton_append, members_close false htrail]
  simp only [Except.bind, hfinish, complete, hend, bind]

/-- A record is refused whose members do not tell all of it. -/
theorem Goes.refuses (h : Goes form form.start ms last) (hobject : ObjectText ms w)
    (hfinish : ∃ m, form.finish last = .error m) : Refuses form.reader w := by
  refine ⟨begins_object hobject, fun s rest _ hs => ?_⟩
  rw [← List.append_nil ms] at hobject
  obtain ⟨n, trail, t, htrail, hclose, hreader⟩ := h.reader hobject hs
  obtain ⟨mismatch, hmismatch⟩ := hfinish
  cases hclose
  rw [hreader, List.singleton_append, members_close false htrail]
  refine Dismissed.complete (.inl ⟨mismatch, trail ++ '\x7d' :: rest, ?_⟩) _ _
  simp only [Except.bind, hmismatch]

/-- A record is refused at a member that comes after those which take its draft further. -/
theorem Halts.refuses (h : Halts form mid m) (hgoes : Goes form form.start ms mid)
    (hobject : ObjectText (ms ++ m :: after) w) : Refuses form.reader w := by
  refine ⟨begins_object hobject, fun s rest _ hs => ?_⟩
  obtain ⟨n, trail, t, htrail, hfollowing, hreader⟩ := hgoes.reader hobject hs
  obtain ⟨b, b', blanks, u, hb, hb', hblanks, hfollowing, hnext⟩ := members_next form hfollowing htrail
  have hmember := h.member hb hb'
    (hblanks.endsNumber (hfollowing.endsNumber (endsNumber_brace rest)))
  rw [hreader, hnext]
  exact ((hmember.bind _).bind _).complete _ _

theorem Takes.field {reader : Reader β} {b : β} (h : Takes reader w b) (name : String)
    (kept : δ → Option β) (keep : δ → β → δ) (draft : δ) :
    Takes ((Field.of name kept keep reader).read draft) w (keep draft b) := h.map (keep draft)

theorem Refuses.field {reader : Reader β} (h : Refuses reader w) (name : String)
    (kept : δ → Option β) (keep : δ → β → δ) (draft : δ) :
    Refuses ((Field.of name kept keep reader).read draft) w :=
  ⟨h.begins, fun s rest hend hs => (h.refuse s rest hend hs).bind _⟩

/-! ### Whole texts -/

variable {reader : Reader α} {text : String} {b b' : Input}

theorem Takes.readAll (h : Takes reader w a) (hb : Blank b) (hb' : Blank b')
    (htext : text.toList = b ++ (w ++ b')) : readAll reader text = .ok a := by
  have hend : EndsNumber b' := by
    rw [← List.append_nil b']
    exact hb'.endsNumber endsNumber_nil
  have hread := h.read text.toList b' hend (by rw [htext, hb.skipBlanks, h.begins.skipBlanks])
  simp only [Json.readAll, hread, hb'.skipBlanks_nil]

theorem Refuses.readAll (h : Refuses reader w) (hb : Blank b) (hb' : Blank b')
    (htext : text.toList = b ++ (w ++ b')) :
    ∃ e, readAll reader text = .error e ∧ e.category = .mismatch := by
  have hend : EndsNumber b' := by
    rw [← List.append_nil b']
    exact hb'.endsNumber endsNumber_nil
  obtain ⟨f, hf, hcategory⟩ :=
    h.refuse text.toList b' hend (by rw [htext, hb.skipBlanks, h.begins.skipBlanks])
  exact ⟨f.locate text.toList, by simp only [Json.readAll, hf], hcategory⟩

end LoaderBench.Json
