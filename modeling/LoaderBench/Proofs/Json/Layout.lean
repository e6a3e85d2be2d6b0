import LoaderBench.Json.Record
import LoaderBench.Proofs.Json.Skipping

/-!
# Values are read in every layout

A reader takes a text, or refuses it as not of the form that is asked for, whatever blanks come before
and whatever follows that does not go on with a number (`Takes`, `Refuses`). Lists and records hand this
on from their parts to the whole, with whatever blanks there are between the parts: the parts are read one
after another, and a part that is refused ends the reading whatever comes after it.
-/

namespace LoaderBench.Json

open LoaderBench.Text

variable {α β δ : Type}

/-- A reader takes a text for `a`. -/
structure Takes (reader : Reader α) (w : Input) (a : α) : Prop where
  begins : Begins w
  read : ∀ s rest : Input, EndsNumber rest → skipBlanks s = w ++ rest → reader s = .ok (a, rest)

/-- What is read is well-formed and not what is asked for. -/
def Mismatched {γ : Type} (r : Except Fault γ) : Prop :=
  ∃ f, r = .error f ∧ f.cause.category = .mismatch

/-- A reader refuses a text as not of the form that is asked for. -/
structure Refuses (reader : Reader α) (w : Input) : Prop where
  begins : Begins w
  refuse : ∀ s rest : Input, EndsNumber rest → skipBlanks s = w ++ rest → Mismatched (reader s)

variable {reader : Reader α} {w : Input} {a : α}

theorem Takes.map (h : Takes reader w a) (f : α → β) :
    Takes (fun s => do
      let (b, rest) ← reader s
      .ok (f b, rest)) w (f a) := by
  refine ⟨h.begins, fun s rest hend hs => ?_⟩
  simp only [h.read s rest hend hs, bind, Except.bind]

theorem Mismatched.bind {r : Except Fault α} (h : Mismatched r) (f : α → Except Fault β) :
    Mismatched (r >>= f) := by
  obtain ⟨fault, rfl, hcategory⟩ := h
  exact ⟨fault, rfl, hcategory⟩

/-! ### Texts -/

theorem TextOf.front {t : String} (h : TextOf t w) (rest : Input) :
    ∃ body, w ++ rest = '"' :: (body ++ '"' :: rest) ∧ string (body ++ '"' :: rest) = .ok (t, rest) := by
  obtain ⟨body, hbody, rfl⟩ := h
  exact ⟨body, by simp only [List.cons_append, List.append_assoc, List.nil_append], hbody.string rest⟩

theorem TextOf.begins {t : String} (h : TextOf t w) : Begins w := by
  obtain ⟨body, -, rfl⟩ := h
  exact ⟨'"', _, rfl, by decide, by decide⟩

theorem takes_text {t : String} (h : TextOf t w) : Takes textValue w t := by
  refine ⟨h.begins, fun s rest _ hs => ?_⟩
  obtain ⟨body, hw, hstring⟩ := h.front rest
  rw [hw] at hs
  simp only [textValue, hs, if_true, hstring]

theorem takes_variant {variants : List (String × α)} {name : String} (h : TextOf name w)
    (hname : variants.lookup name = some a) : Takes (variantValue variants) w a := by
  refine ⟨h.begins, fun s rest _ hs => ?_⟩
  obtain ⟨body, hw, hstring⟩ := h.front rest
  have hbrace : '"' ≠ '\x7b' := by decide
  rw [hw] at hs
  simp only [variantValue, hs, if_neg hbrace, if_true, variantName, hstring, variantNamed, hname,
    bind, Except.bind]

/-! ### Whole numbers -/

theorem head_signed (i : Int) :
    ∃ c cs, (signed i).toList = c :: cs ∧ isBlank c = false ∧ c ≠ ']' ∧ c ≠ 'n' := by
  rw [toList_signed]
  split
  · exact ⟨'-', _, rfl, by decide, by decide, by decide⟩
  · obtain ⟨c, cs, hd, hdigit⟩ := (digits_digits i.natAbs).cons
    exact ⟨c, cs, hd, isBlank_of_isDigit hdigit, ne_of_isDigit hdigit (by decide),
      ne_of_isDigit hdigit (by decide)⟩

theorem takes_whole (wanted : String) {low high i : Int} (hrange : low ≤ i ∧ i ≤ high)
    (hsize : -0x8000000000000000 ≤ i ∧ i < 0x10000000000000000) :
    Takes (wholeValue wanted low high) (signed i).toList i := by
  obtain ⟨c, cs, hcs, hblank, hclose, -⟩ := head_signed i
  refine ⟨⟨c, cs, hcs, hblank, hclose⟩, fun s rest hend hs => ?_⟩
  have hbetween : wholeBetween wanted low high (.integer i) = .ok i := if_pos hrange
  rw [toList_signed] at hs
  by_cases hneg : i < 0
  · rw [if_pos hneg, List.cons_append] at hs
    have hread := number_digits true (n := i.natAbs) (by omega) hend
    rw [whole_negative hneg hsize.1] at hread
    simp only [wholeValue, hs, if_true, hread, Except.bind, hbetween]
  · rw [if_neg hneg] at hs
    have hread := number_digits false (n := i.natAbs) (by omega) hend
    rw [whole_positive (Int.not_lt.mp hneg)] at hread
    obtain ⟨c, cs, hd, hdigit⟩ := (digits_digits i.natAbs).cons
    have hminus : c ≠ '-' := ne_of_isDigit hdigit (by decide)
    rw [hd, List.cons_append] at hs hread
    simp only [wholeValue, hs, if_neg hminus, hdigit, if_true, hread, Except.bind, hbetween]

/-! ### Optional values -/

theorem Takes.optional (h : Takes reader w a) (hnull : ∀ c ∈ w.head?, c ≠ 'n') :
    Takes (optionalValue reader) w (some a) := by
  refine ⟨h.begins, fun s rest hend hs => ?_⟩
  have hread := h.read (w ++ rest) rest hend (h.begins.skipBlanks rest)
  obtain ⟨c, cs, rfl, -, -⟩ := h.begins
  rw [List.cons_append] at hs hread
  unfold optionalValue
  rw [hs]
  split
  · rename_i heq
    exact absurd (List.cons.inj heq).1 (hnull c rfl)
  · rw [hread]
    rfl

theorem takes_null (reader : Reader α) :
    Takes (optionalValue reader) ['n', 'u', 'l', 'l'] none := by
  refine ⟨⟨'n', _, rfl, by decide, by decide⟩, fun s rest _ hs => ?_⟩
  simp only [optionalValue, hs]
  rfl

/-! ### Lists -/

section Lists

variable {rels after : List (Input → Prop)} {t trail : Input} {as : List α} {W : α → Input → Prop}

/-- An item whose text is what a relation says, with blanks around it. -/
def ItemText (rel : Input → Prop) (s : Input) : Prop := ∃ w, rel w ∧ Around w s

/-- The texts of an array whose items are what each of the relations says. -/
def ListText (rels : List (Input → Prop)) (s : Input) : Prop := Enclosed '[' ']' ItemText rels s

theorem endsNumber_bracket (rest : Input) : EndsNumber (']' :: rest) := endsNumber_cons (by decide)

theorem nextItem_first (hw : Begins w) {b : Input} (hb : Blank b) (s : Input) :
    nextItem true (b ++ (w ++ s)) = .ok (some (w ++ s)) := by
  rw [nextItem, hb.skipBlanks, hw.skipBlanks]
  obtain ⟨c, cs, rfl, -, hc⟩ := hw
  rw [List.cons_append]
  dsimp only
  rw [if_neg hc, if_pos rfl]

theorem nextItem_comma (hw : Begins w) {b : Input} (hb : Blank b) (htrail : Blank trail)
    (s : Input) : nextItem false (trail ++ ',' :: (b ++ (w ++ s))) = .ok (some (w ++ s)) := by
  have hcomma : isBlank ',' = false := by decide
  have hbracket : ',' ≠ ']' := by decide
  rw [nextItem, htrail.skipBlanks, skipBlanks_cons hcomma]
  dsimp only
  rw [if_neg hbracket, if_neg Bool.false_ne_true, if_pos rfl, hb.skipBlanks, hw.skipBlanks]
  obtain ⟨c, cs, rfl, -, hc⟩ := hw
  rw [List.cons_append]
  dsimp only
  rw [if_neg hc]

/-- The first item is read as if it followed a comma. -/
theorem items_first (reader : Reader α) (hw : Begins w) {b : Input} (hb : Blank b) (n : Nat)
    (s : Input) : items reader (n + 1) true (b ++ (w ++ s)) =
      items reader (n + 1) false (',' :: (b ++ (w ++ s))) := by
  have hcomma := nextItem_comma hw hb blank_nil s
  rw [List.nil_append] at hcomma
  rw [items, nextItem_first hw hb, items, hcomma]
  rfl

/-- What follows a part begins with the next item, which is read, and then the others. -/
theorem items_next (reader : Reader α) {rel : Input → Prop}
    (h : Following ']' ItemText (rel :: after) t) (htrail : Blank trail) :
    ∃ w blanks u, rel w ∧ Blank blanks ∧ Following ']' ItemText after u ∧
      ∀ n rest, Begins w → items reader (n + 1) false (trail ++ (t ++ rest)) =
        (reader (w ++ (blanks ++ (u ++ rest)))).bind fun (a, s) =>
          (items reader n false s).bind fun (as, s) => .ok (a :: as, s) := by
  cases h with
  | @next _ _ s u hs hfollowing =>
    obtain ⟨w, hw, b, blanks, hb, hblanks, rfl⟩ := hs
    refine ⟨w, blanks, u, hw, hblanks, hfollowing, fun n rest hbegins => ?_⟩
    have htext : trail ++ (',' :: (b ++ (w ++ blanks) ++ u) ++ rest) =
        trail ++ ',' :: (b ++ (w ++ (blanks ++ (u ++ rest)))) := by
      simp only [List.cons_append, List.append_assoc]
    rw [htext, items, nextItem_comma hbegins hb htrail]
    rfl

theorem items_close (first : Bool) (htrail : Blank trail) (n : Nat) (rest : Input) :
    items reader (n + 1) first (trail ++ ']' :: rest) = .ok ([], rest) := by
  have hclose : isBlank ']' = false := by decide
  have hnext : nextItem first (trail ++ ']' :: rest) = .ok none := by
    rw [nextItem, htrail.skipBlanks, skipBlanks_cons hclose]
    rfl
  rw [items, hnext]
  show Except.ok (([] : List α), (skipBlanks (trail ++ ']' :: rest)).tail) = _
  rw [htrail.skipBlanks, skipBlanks_cons hclose]
  rfl

/-- After the opening bracket, items are read as they are after a comma. -/
theorem items_opened (reader : Reader α) (hbegins : ∀ rel ∈ rels.head?, ∀ w, rel w → Begins w)
    (h : ListText rels w) :
    ∃ body, w = '[' :: body ∧ rels.length ≤ body.length ∧
      ∃ trail t, Blank trail ∧ Following ']' ItemText rels t ∧
        ∀ n rest, items reader (n + 1) true (body ++ rest) =
          items reader (n + 1) false (trail ++ (t ++ rest)) := by
  cases h with
  | @empty b hb =>
    refine ⟨_, rfl, Nat.zero_le _, b, [']'], hb, .closes, fun n rest => ?_⟩
    rw [List.append_assoc, List.singleton_append, items_close true hb, items_close false hb]
  | @parts rel rels s t ha hfollowing =>
    refine ⟨_, rfl, ?_, [], _, blank_nil, .next ha hfollowing, fun n rest => ?_⟩
    · have hlen := hfollowing.length_lt
      simp only [List.length_cons, List.length_append]
      omega
    · obtain ⟨w, hrel, b, trail, hb, -, rfl⟩ := ha
      have hfirst := items_first reader (hbegins rel rfl w hrel) hb n
        (trail ++ (t ++ rest))
      simpa only [List.nil_append, List.cons_append, List.append_assoc] using hfirst

/-- Items that are taken are read, and then those that follow them. -/
theorem items_following (h : ∀ a ∈ as, ∀ w, W a w → Takes reader w a)
    (hwhole : Following ']' ItemText (as.map W ++ after) t) (htrail : Blank trail) (rest : Input) :
    ∃ trail' t', Blank trail' ∧ Following ']' ItemText after t' ∧
      ∀ n, items reader (as.length + n) false (trail ++ (t ++ rest)) =
        (items reader n false (trail' ++ (t' ++ rest))).bind fun (bs, s) => .ok (as ++ bs, s) := by
  induction as generalizing t trail with
  | nil =>
    refine ⟨trail, t, htrail, hwhole, fun n => ?_⟩
    rw [List.length_nil, Nat.zero_add]
    cases items reader n false (trail ++ (t ++ rest)) <;> rfl
  | cons a as ih =>
    obtain ⟨w, blanks, u, hw, hblanks, hfollowing, hnext⟩ := items_next reader hwhole htrail
    have htakes := h a List.mem_cons_self w hw
    obtain ⟨trail', t', htrail', hafter, hitems⟩ :=
      ih (fun a ha => h a (List.mem_cons_of_mem _ ha)) hfollowing hblanks
    refine ⟨trail', t', htrail', hafter, fun n => ?_⟩
    have hread := htakes.read (w ++ (blanks ++ (u ++ rest))) (blanks ++ (u ++ rest))
      (hblanks.endsNumber (hfollowing.endsNumber (endsNumber_bracket rest)))
      (htakes.begins.skipBlanks _)
    rw [List.length_cons, Nat.add_right_comm, hnext _ _ htakes.begins, hread]
    show (items reader (as.length + n) false (blanks ++ (u ++ rest))).bind _ = _
    rw [hitems n]
    cases items reader n false (trail' ++ (t' ++ rest)) <;> rfl

theorem takes_list (h : ∀ a ∈ as, ∀ w, W a w → Takes reader w a) (hlist : ListText (as.map W) w) :
    Takes (listValue reader) w as := by
  have hbegins : ∀ rel ∈ (as.map W).head?, ∀ w, rel w → Begins w := by
    cases as with
    | nil => exact nofun
    | cons a as =>
      rintro _ ⟨⟩ w hw
      exact (h a List.mem_cons_self w hw).begins
  obtain ⟨body, rfl, hlen, trail, t, htrail, hfollowing, hopened⟩ :=
    items_opened reader hbegins hlist
  refine ⟨⟨'[', body, rfl, by decide, by decide⟩, fun s rest _ hs => ?_⟩
  rw [← List.append_nil (as.map W)] at hfollowing
  obtain ⟨trail', t', htrail', hclose, hitems⟩ := items_following h hfollowing htrail rest
  cases hclose
  rw [List.length_map] at hlen
  -- The bound on the items is the length of the text, and each item takes a character.
  obtain ⟨n, hn⟩ : ∃ n, (body ++ rest).length + 1 = as.length + (n + 1) :=
    ⟨(body ++ rest).length - as.length, by rw [List.length_append]; omega⟩
  rw [List.cons_append] at hs
  simp only [listValue, hs, if_true]
  rw [hopened, hn, hitems, List.singleton_append, items_close false htrail']
  show Except.ok (as ++ [], rest) = _
  rw [List.append_nil]

/-- A list with an item that is refused after items that are taken. -/
theorem refuses_list {bad : Input → Prop} (h : ∀ a ∈ as, ∀ w, W a w → Takes reader w a)
    (hbad : ∀ w, bad w → Refuses reader w) (hlist : ListText (as.map W ++ bad :: after) w) :
    Refuses (listValue reader) w := by
  have hbegins : ∀ rel ∈ (as.map W ++ bad :: after).head?, ∀ w, rel w → Begins w := by
    cases as with
    | nil =>
      rintro _ ⟨⟩ w hw
      exact (hbad w hw).begins
    | cons a as =>
      rintro _ ⟨⟩ w hw
      exact (h a List.mem_cons_self w hw).begins
  obtain ⟨body, rfl, hlen, trail, t, htrail, hfollowing, hopened⟩ :=
    items_opened reader hbegins hlist
  refine ⟨⟨'[', body, rfl, by decide, by decide⟩, fun s rest _ hs => ?_⟩
  obtain ⟨trail', t', htrail', hrest, hitems⟩ := items_following h hfollowing htrail rest
  rw [List.length_append, List.length_map, List.length_cons] at hlen
  obtain ⟨n, hn⟩ : ∃ n, (body ++ rest).length + 1 = as.length + (n + 1) :=
    ⟨(body ++ rest).length - as.length, by rw [List.length_append]; omega⟩
  obtain ⟨w, blanks, u, hw, hblanks, hfollowing, hnext⟩ := items_next reader hrest htrail'
  have hrefuses := hbad w hw
  have hmismatch := hrefuses.refuse (w ++ (blanks ++ (u ++ rest))) (blanks ++ (u ++ rest))
    (hblanks.endsNumber (hfollowing.endsNumber (endsNumber_bracket rest)))
    (hrefuses.begins.skipBlanks _)
  rw [List.cons_append] at hs
  simp only [listValue, hs, if_true]
  rw [hopened, hn, hitems, hnext _ _ hrefuses.begins]
  exact (hmismatch.bind _).bind _

end Lists

end LoaderBench.Json
