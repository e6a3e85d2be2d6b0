import LoaderBench.Json.Skip
import LoaderBench.Proofs.Json.Lexeme

/-!
# Every value is passed over

A value that nobody asks for is passed over whatever it is and however deep it goes: in a number of
steps that its length bounds, the reader comes to what follows it with the same brackets open. Values go
by induction, and the parts between brackets by induction on what follows each of them.
-/

namespace LoaderBench.Json

open LoaderBench.Text

variable {s t rest : Input}

/-! ### Strings -/

theorem skipStringFrom_backslash {k : Nat} (h : skipEscape s = .ok k) :
    skipStringFrom 0 ('\\' :: s) = skipStringFrom k s := by
  have hquote : '\\' ≠ '"' := by decide
  simp only [skipStringFrom, if_neg hquote, if_true, h]

theorem IsBody.skipString (h : IsBody s) (rest : Input) : skipString (s ++ '"' :: rest) = .ok rest := by
  unfold Json.skipString
  induction h with
  | nil => rfl
  | plain hquote hslash hcontrol _ ih =>
    simpa only [List.cons_append, skipStringFrom, if_neg hquote, if_neg hslash, if_neg hcontrol] using ih
  | @short c d s hshort _ ih =>
    have hu := ne_u_of_short hshort
    have hescape : skipEscape (d :: (s ++ '"' :: rest)) = .ok 1 := by
      simp only [skipEscape, hshort]
    rw [List.cons_append, List.cons_append, skipStringFrom_backslash hescape]
    exact ih
  | @unit n ds s hunit _ ih =>
    obtain ⟨a, b, c, d, rfl, hhex⟩ := codeUnit?_eq_some hunit (s ++ '"' :: rest)
    have hescape : skipEscape ('u' :: ([a, b, c, d] ++ (s ++ '"' :: rest))) = .ok 5 := by
      rw [skipEscape, hhex]
      rfl
    rw [List.cons_append, List.cons_append, List.append_assoc, skipStringFrom_backslash hescape]
    exact ih

/-! ### Numbers -/

theorem skipExponent_digits {sign ds : Input} (hsign : sign = [] ∨ sign = ['+'] ∨ sign = ['-'])
    (h : Digits ds) (hrest : EndsNumber rest) :
    skipExponent (sign ++ ds ++ rest) = .ok rest := by
  have hdrop := dropWhile_isDigit h hrest.head
  obtain ⟨c, cs, rfl, hc⟩ := h.cons
  have hplus : c ≠ '+' := ne_of_isDigit hc (by decide)
  have hminus : c ≠ '-' := ne_of_isDigit hc (by decide)
  rw [List.cons_append] at hdrop
  rcases hsign with rfl | rfl | rfl
  · have hunsigned : skipExponent (c :: (cs ++ rest)) =
        if c.isDigit then .ok ((c :: (cs ++ rest)).dropWhile Char.isDigit)
        else .error (.in .badNumber (c :: (cs ++ rest))) := by
      unfold skipExponent
      split
      · rename_i heq
        exact absurd (List.cons.inj heq).1 hplus
      · rename_i heq
        exact absurd (List.cons.inj heq).1 hminus
      · rfl
    rw [List.nil_append, List.cons_append, hunsigned, if_pos hc, hdrop]
  · simp only [List.cons_append, List.nil_append, skipExponent, hc, if_true, hdrop]
  · simp only [List.cons_append, List.nil_append, skipExponent, hc, if_true, hdrop]

theorem IsExponent.skipScale (h : IsExponent s) (hrest : EndsNumber rest) :
    skipScale (s ++ rest) = .ok rest := by
  rcases h with rfl | ⟨e, sign, ds, he, hsign, hds, rfl⟩
  · cases rest with
    | nil => rfl
    | cons c rest =>
      obtain ⟨-, -, he, hE⟩ := hrest c rfl
      have hne : ¬ (c = 'e' ∨ c = 'E') := not_or.mpr ⟨he, hE⟩
      simp only [List.nil_append, Json.skipScale, if_neg hne]
  · rw [List.cons_append, Json.skipScale, if_pos he]
    exact skipExponent_digits hsign hds hrest

theorem IsExponent.head (h : IsExponent s) (hrest : EndsNumber rest) :
    ∀ c ∈ (s ++ rest).head?, c.isDigit = false ∧ c ≠ '.' := by
  rcases h with rfl | ⟨e, sign, ds, he, -, -, rfl⟩
  · exact fun c hc => ⟨(hrest c hc).1, (hrest c hc).2.1⟩
  · rintro c ⟨⟩
    rcases he with rfl | rfl <;> decide

theorem IsFraction.skipFraction {e : Input} (h : IsFraction s) (he : IsExponent e)
    (hrest : EndsNumber rest) : skipFraction (s ++ (e ++ rest)) = .ok rest := by
  have hhead := he.head hrest
  have hscale := he.skipScale hrest
  rcases h with rfl | ⟨ds, hds, rfl⟩
  · rw [List.nil_append]
    cases hs : e ++ rest with
    | nil =>
      rw [hs] at hscale
      exact hscale
    | cons c cs =>
      rw [hs] at hhead hscale
      unfold Json.skipFraction
      split
      · rename_i heq
        exact absurd (List.cons.inj heq).1 (hhead c rfl).2
      · exact hscale
  · have hdrop := dropWhile_isDigit hds fun c hc => (hhead c hc).1
    obtain ⟨c, cs, rfl, hc⟩ := hds.cons
    rw [List.cons_append] at hdrop
    simp only [List.cons_append, Json.skipFraction, hc, if_true, hdrop, hscale]

theorem IsFraction.head {e : Input} (h : IsFraction s) (he : IsExponent e) (hrest : EndsNumber rest) :
    ∀ c ∈ (s ++ (e ++ rest)).head?, c.isDigit = false := by
  rcases h with rfl | ⟨ds, -, rfl⟩
  · exact fun c hc => (he.head hrest c hc).1
  · rintro c ⟨⟩
    decide

theorem skipNumber_parts {whole fraction exponent : Input} (hwhole : IsWhole whole)
    (hfraction : IsFraction fraction) (hexponent : IsExponent exponent) (hrest : EndsNumber rest) :
    skipNumber (whole ++ (fraction ++ (exponent ++ rest))) = .ok rest := by
  have hhead := hfraction.head hexponent hrest
  have hskip := hfraction.skipFraction hexponent hrest
  rcases hwhole with rfl | ⟨hdigits, hzero⟩
  · cases hs : fraction ++ (exponent ++ rest) with
    | nil =>
      obtain ⟨-, -, rfl⟩ : fraction = [] ∧ exponent = [] ∧ rest = [] := by
        simpa only [List.append_eq_nil_iff] using hs
      rfl
    | cons c cs =>
      rw [hs] at hhead hskip
      simp only [List.cons_append, List.nil_append, skipNumber, if_true, hhead c rfl,
        Bool.false_eq_true, if_false, hskip]
  · have hdrop := dropWhile_isDigit hdigits hhead
    obtain ⟨c, cs, rfl, hc⟩ := hdigits.cons
    have hne : c ≠ '0' := fun h => hzero (congrArg some h)
    rw [List.cons_append] at hdrop
    simp only [List.cons_append, skipNumber, if_neg hne, hc, if_true, hdrop, hskip]

theorem skipScalar_of_isDigit {c : Char} (hc : c.isDigit = true) (s : Input) :
    skipScalar (c :: s) = skipNumber (c :: s) := by
  have hword : c ≠ 'n' ∧ c ≠ 't' ∧ c ≠ 'f' ∧ c ≠ '-' ∧ c ≠ '"' := by
    refine ⟨?_, ?_, ?_, ?_, ?_⟩ <;> exact ne_of_isDigit hc (by decide)
  obtain ⟨hn, ht, hf, hminus, hquote⟩ := hword
  simp [skipScalar, hc]

theorem IsNumber.skipScalar (h : IsNumber s) (hrest : EndsNumber rest) :
    skipScalar (s ++ rest) = .ok rest := by
  obtain ⟨sign, whole, fraction, exponent, hsign, hwhole, hfraction, hexponent, rfl⟩ := h
  have hskip := skipNumber_parts hwhole hfraction hexponent hrest
  simp only [List.append_assoc]
  rcases hsign with rfl | rfl
  · obtain ⟨c, cs, rfl, hc⟩ := hwhole.cons
    rw [List.nil_append, List.cons_append, skipScalar_of_isDigit hc]
    exact hskip
  · exact hskip

/-! ### Values -/

/-- A text is passed over, whatever brackets are open and whatever follows. -/
def Passes (w : Input) : Prop :=
  ∃ k, k + 1 ≤ 2 * w.length ∧ ∀ (n : Nat) (open_ : List Bracket) (s rest : Input), EndsNumber rest →
    skipBlanks s = w ++ rest → skipFrom (k + n) .value open_ s = skipFrom n .after open_ rest

theorem passes_scalar {w : Input} (hw : Begins w) (hopen : ∀ c ∈ w.head?, c ≠ '[' ∧ c ≠ '\x7b')
    (h : ∀ rest, EndsNumber rest → skipScalar (w ++ rest) = .ok rest) : Passes w := by
  obtain ⟨c, cs, rfl, -, -⟩ := hw
  obtain ⟨hbracket, hbrace⟩ := hopen c rfl
  refine ⟨1, by simp only [List.length_cons]; omega, fun n open_ s rest hrest hs => ?_⟩
  have hscalar := h rest hrest
  rw [List.cons_append] at hs hscalar
  rw [Nat.add_comm, skipFrom, hs]
  simp only [if_neg hbracket, if_neg hbrace, hscalar]

/-- A part between brackets leads, past its key if it has one, to its value. -/
def Leads (b : Bracket) (w s : Input) : Prop :=
  ∃ trail, Blank trail ∧ w.length ≤ s.length ∧ ∀ rest,
    (∃ c cs, skipBlanks (s ++ rest) = c :: cs ∧ isBlank c = false ∧ c ≠ b.closing) ∧
      ∀ s', skipBlanks s' = skipBlanks (s ++ rest) →
        ∃ u, skipKey b s' = .ok u ∧ skipBlanks u = w ++ (trail ++ rest)

theorem leads_item {w : Input} (hw : Begins w) (h : Around w s) : Leads .list w s := by
  obtain ⟨b, trail, hb, htrail, rfl⟩ := h
  refine ⟨trail, htrail, by simp only [List.length_append]; omega, fun rest => ?_⟩
  have hs : skipBlanks (b ++ (w ++ trail) ++ rest) = w ++ (trail ++ rest) := by
    rw [List.append_assoc, hb.skipBlanks, List.append_assoc, hw.skipBlanks]
  obtain ⟨c, cs, rfl, hblank, hc⟩ := hw
  exact ⟨⟨c, _, hs, hblank, hc⟩, fun s' hs' => ⟨s', rfl, hs'.trans hs⟩⟩

theorem colon_blanks {b : Input} (hb : Blank b) (s : Input) : colon (b ++ ':' :: s) = .ok s := by
  have hcolon : isBlank ':' = false := by decide
  rw [colon, hb.skipBlanks, skipBlanks_cons hcolon]
  rfl

theorem leads_member {k w : Input} (hk : IsBody k) (hw : Begins w)
    (h : MemberText (fun k body => body = k) (k, w) s) : Leads .object w s := by
  obtain ⟨b, body, b', _, hb, rfl, hb', ⟨before, trail, hbefore, htrail, rfl⟩, rfl⟩ := h
  refine ⟨trail, htrail, by simp only [List.length_append, List.length_cons]; omega, fun rest => ?_⟩
  have hquote : isBlank '"' = false := by decide
  have hbrace : '"' ≠ '\x7d' := by decide
  have hs : skipBlanks (b ++ '"' :: (body ++ '"' :: (b' ++ ':' :: (before ++ (w ++ trail)))) ++ rest) =
      '"' :: (body ++ '"' :: (b' ++ ':' :: (before ++ (w ++ (trail ++ rest))))) := by
    rw [List.append_assoc, hb.skipBlanks, List.cons_append, skipBlanks_cons hquote]
    simp only [List.append_assoc, List.cons_append]
  refine ⟨⟨'"', _, hs, hquote, hbrace⟩, fun s' hs' => ⟨before ++ (w ++ (trail ++ rest)), ?_, ?_⟩⟩
  · rw [skipKey, hs'.trans hs]
    simp only [if_true, hk.skipString, bind, Except.bind, colon_blanks hb']
  · rw [hbefore.skipBlanks, hw.skipBlanks]

/-- The steps from a value on, through what follows it, to the closing bracket. -/
theorem skip_following {α : Type} {b : Bracket} {part : α → Input → Prop} {as : List α}
    (hpart : ∀ a ∈ as, ∀ s, part a s → ∃ w, Leads b w s ∧ Passes w)
    (h : Following b.closing part as t) :
    ∃ k, k ≤ 2 * t.length ∧ ∀ (n : Nat) (open_ : List Bracket) (trail rest : Input), Blank trail →
      skipFrom (k + n) .after (b :: open_) (trail ++ (t ++ rest)) = skipFrom n .after open_ rest := by
  have hcomma : isBlank ',' = false := by decide
  have hends (rest : Input) : EndsNumber (b.closing :: rest) := by
    refine endsNumber_cons ?_
    cases b <;> decide
  have hclose : isBlank b.closing = false ∧ b.closing ≠ ',' := by
    cases b <;> decide
  induction h with
  | closes =>
    refine ⟨1, by rw [List.length_singleton]; omega, fun n open_ trail rest htrail => ?_⟩
    rw [Nat.add_comm, skipFrom, htrail.skipBlanks, List.singleton_append, skipBlanks_cons hclose.1]
    simp only [if_neg hclose.2, if_true]
  | @next a as s t ha hfollowing ih =>
    obtain ⟨w, ⟨trail', htrail', hlen, hleads⟩, k, hk, hpasses⟩ := hpart a List.mem_cons_self s ha
    obtain ⟨m, hm, hrest⟩ := ih fun a ha => hpart a (List.mem_cons_of_mem _ ha)
    refine ⟨m + k + 1, ?_, fun n open_ trail rest htrail => ?_⟩
    · simp only [List.length_cons, List.length_append]
      omega
    · obtain ⟨-, hkey⟩ := hleads (t ++ rest)
      obtain ⟨u, hskip, hu⟩ := hkey (s ++ (t ++ rest)) rfl
      have hvalue := hpasses (m + n) (b :: open_) u (trail' ++ (t ++ rest))
        (htrail'.endsNumber (hfollowing.endsNumber (hends rest))) hu
      have hsteps : m + k + 1 + n = k + (m + n) + 1 := by omega
      rw [hsteps, skipFrom, htrail.skipBlanks, List.cons_append, skipBlanks_cons hcomma]
      simp only [if_true, List.append_assoc, hskip]
      rw [hvalue, hrest n open_ trail' rest htrail']

theorem passes_enclosed {α : Type} {b : Bracket} {opening : Char} {part : α → Input → Prop}
    {as : List α} {w : Input}
    (hopens : ∀ (n : Nat) (open_ : List Bracket) (s rest : Input), skipBlanks s = opening :: rest →
      skipFrom (n + 1) .value open_ s = skipFrom n .opened (b :: open_) rest)
    (hpart : ∀ a ∈ as, ∀ s, part a s → ∃ w, Leads b w s ∧ Passes w)
    (h : Enclosed opening b.closing part as w) : Passes w := by
  have hends (rest : Input) : EndsNumber (b.closing :: rest) := by
    refine endsNumber_cons ?_
    cases b <;> decide
  have hclose : isBlank b.closing = false := by
    cases b <;> decide
  cases h with
  | @empty blanks hb =>
    refine ⟨2, ?_, fun n open_ s rest _ hs => ?_⟩
    · simp only [List.length_cons, List.length_append, List.length_nil]
      omega
    · rw [List.cons_append] at hs
      have hsteps : 2 + n = n + 1 + 1 := by omega
      rw [hsteps, hopens _ _ _ _ hs, skipFrom, List.append_assoc, hb.skipBlanks,
        List.singleton_append, skipBlanks_cons hclose]
      simp only [if_true]
  | @parts a as u t ha hfollowing =>
    obtain ⟨w, ⟨trail, htrail, hlen, hleads⟩, k, hk, hpasses⟩ := hpart a List.mem_cons_self u ha
    obtain ⟨m, hm, hrest⟩ :=
      skip_following (fun a ha => hpart a (List.mem_cons_of_mem _ ha)) hfollowing
    refine ⟨m + k + 2, ?_, fun n open_ s rest _ hs => ?_⟩
    · simp only [List.length_cons, List.length_append]
      omega
    · rw [List.cons_append] at hs
      obtain ⟨⟨c, cs, hc, hblank, hne⟩, hkey⟩ := hleads (t ++ rest)
      have hidem : skipBlanks (c :: cs) = skipBlanks (u ++ (t ++ rest)) := by
        rw [skipBlanks_cons hblank, hc]
      obtain ⟨v, hskip, hv⟩ := hkey (c :: cs) hidem
      have hvalue := hpasses (m + n) (b :: open_) v (trail ++ (t ++ rest))
        (htrail.endsNumber (hfollowing.endsNumber (hends rest))) hv
      have hsteps : m + k + 2 + n = k + (m + n) + 1 + 1 := by omega
      rw [hsteps, hopens _ _ _ _ hs, skipFrom, List.append_assoc, hc]
      simp only [if_neg hne, hskip]
      rw [hvalue, hrest n open_ trail rest htrail]

theorem skip_bracket {opening : Char} {b : Bracket}
    (hopening : opening = '[' ∧ b = .list ∨ opening = '\x7b' ∧ b = .object) (n : Nat)
    (open_ : List Bracket) {s rest : Input} (hs : skipBlanks s = opening :: rest) :
    skipFrom (n + 1) .value open_ s = skipFrom n .opened (b :: open_) rest := by
  rcases hopening with ⟨rfl, rfl⟩ | ⟨rfl, rfl⟩ <;> rw [skipFrom, hs] <;> rfl

theorem IsValue.passes {w : Input} (h : IsValue w) : Passes w := by
  have hbegins := h.begins
  induction h with
  | @word w h =>
    have hword : w = ['n', 'u', 'l', 'l'] ∨ w = ['t', 'r', 'u', 'e'] ∨ w = ['f', 'a', 'l', 's', 'e'] := by
      simpa only [List.mem_cons, List.not_mem_nil, or_false] using h
    refine passes_scalar hbegins ?_ fun rest _ => ?_
    · rcases hword with rfl | rfl | rfl <;> rintro _ ⟨⟩ <;> decide
    · rcases hword with rfl | rfl | rfl <;> rfl
  | @number w h =>
    refine passes_scalar hbegins ?_ fun rest hrest => h.skipScalar hrest
    obtain ⟨sign, whole, fraction, exponent, hsign, hwhole, -, -, rfl⟩ := h
    rcases hsign with rfl | rfl
    · obtain ⟨c, cs, rfl, hc⟩ := hwhole.cons
      rintro _ ⟨⟩
      exact (beginsScalar_of_isDigit hc).2
    · rintro _ ⟨⟩
      decide
  | @string body h =>
    refine passes_scalar hbegins ?_ fun rest _ => ?_
    · rintro _ ⟨⟩
      decide
    · rw [List.cons_append, List.append_assoc]
      exact h.skipString rest
  | array hws h ih =>
    refine passes_enclosed (b := .list) (fun n open_ s rest => skip_bracket (.inl ⟨rfl, rfl⟩) n open_)
      (fun w hw s hs => ?_) h
    exact ⟨w, leads_item (hws w hw).begins hs, ih w hw (hws w hw).begins⟩
  | object hkeys hvalues h ih =>
    refine passes_enclosed (b := .object) (fun n open_ s rest => skip_bracket (.inr ⟨rfl, rfl⟩) n open_)
      (fun m hm s hs => ?_) h
    exact ⟨m.2, leads_member (hkeys m hm) (hvalues m hm).begins hs, ih m hm (hvalues m hm).begins⟩

/-- Any value is passed over, with the blanks before it. -/
theorem IsValue.skip {w : Input} (h : IsValue w) (hrest : EndsNumber rest)
    (hs : skipBlanks s = w ++ rest) : skip s = .ok rest := by
  obtain ⟨k, hk, hpasses⟩ := h.passes
  have hlen : w.length ≤ s.length := by
    have hle := (List.dropWhile_suffix isBlank (l := s)).length_le
    rw [show s.dropWhile isBlank = w ++ rest from hs, List.length_append] at hle
    omega
  obtain ⟨n, hn⟩ : ∃ n, 2 * s.length + 2 = k + (n + 1) := ⟨2 * s.length + 1 - k, by omega⟩
  rw [Json.skip, hn, hpasses (n + 1) [] s rest hrest hs]
  rfl

end LoaderBench.Json
