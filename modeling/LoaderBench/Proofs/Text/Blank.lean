import LoaderBench.Proofs.Text.Front
import LoaderBench.Text.Blank

/-!
# Trimming

Trimming takes white space away at both ends until none is left there. One part of a text alone is like
that.
-/

namespace LoaderBench.Text

variable {before cs after t : List Char}

/-- Whether a text is white space throughout. -/
def Blank (cs : List Char) : Prop := ∀ c ∈ cs, isBlank c = true

theorem all_isBlank_iff : cs.all isBlank = true ↔ Blank cs := List.all_eq_true

instance (cs : List Char) : Decidable (Blank cs) := decidable_of_decidable_of_iff all_isBlank_iff

/-- A text without white space at its ends. -/
structure Bare (cs : List Char) : Prop where
  front : ∀ c ∈ cs.head?, isBlank c = false
  back : ∀ c ∈ cs.getLast?, isBlank c = false

theorem Blank.reverse (h : Blank cs) : Blank cs.reverse := by
  intro c hc
  exact h c (List.mem_reverse.mp hc)

theorem Bare.reverse (h : Bare cs) : Bare cs.reverse := by
  refine ⟨fun c hc => h.back c ?_, fun c hc => h.front c ?_⟩
  · rwa [List.head?_reverse] at hc
  · rwa [List.getLast?_reverse] at hc

/-! ### One end -/

theorem Blank.dropWhile (h : Blank before) (cs : List Char) :
    (before ++ cs).dropWhile isBlank = cs.dropWhile isBlank := List.dropWhile_append_of_pos h

theorem dropWhile_of_front (h : ∀ c ∈ cs.head?, isBlank c = false) : cs.dropWhile isBlank = cs :=
  dropWhile_front (l := []) nofun h

theorem exists_blank_append (cs : List Char) :
    ∃ before, Blank before ∧ cs = before ++ cs.dropWhile isBlank :=
  ⟨cs.takeWhile isBlank, List.all_eq_true.mp List.all_takeWhile,
    List.takeWhile_append_dropWhile.symm⟩

/-! ### Both ends -/

theorem bare_trim (cs : List Char) : Bare (trim cs) := by
  refine ⟨fun c hc => ?_, fun c hc => ?_⟩
  · obtain ⟨after, -, hafter⟩ := exists_blank_append (cs.dropWhile isBlank).reverse
    have hparts : cs.dropWhile isBlank = trim cs ++ after.reverse := by
      rw [trim, ← List.reverse_append, ← hafter, List.reverse_reverse]
    refine head?_dropWhile isBlank cs c ?_
    rw [hparts, List.head?_append, Option.mem_def.mp hc]
    rfl
  · rw [trim, List.getLast?_reverse] at hc
    exact head?_dropWhile isBlank _ c hc

theorem trim_parts (cs : List Char) :
    ∃ before after, cs = before ++ trim cs ++ after ∧ Blank before ∧ Blank after := by
  obtain ⟨before, hbefore, hfront⟩ := exists_blank_append cs
  obtain ⟨after, hafter, hback⟩ := exists_blank_append (cs.dropWhile isBlank).reverse
  refine ⟨before, after.reverse, ?_, hbefore, hafter.reverse⟩
  rw [trim, List.append_assoc, ← List.reverse_append, ← hback, List.reverse_reverse, ← hfront]

theorem trim_of_parts (h : Bare t) (hbefore : Blank before) (hafter : Blank after) :
    trim (before ++ t ++ after) = t := by
  rw [trim, List.append_assoc, hbefore.dropWhile]
  cases t with
  | nil =>
    have hnone : after.dropWhile isBlank = [] := by
      have hall := hafter.dropWhile []
      rwa [List.append_nil] at hall
    rw [List.nil_append, hnone]
    rfl
  | cons c t =>
    have hfront : ∀ d ∈ (c :: t ++ after).head?, isBlank d = false := by
      rintro d ⟨⟩
      exact h.front c rfl
    rw [dropWhile_of_front hfront, List.reverse_append, hafter.reverse.dropWhile,
      dropWhile_of_front h.reverse.front, List.reverse_reverse]

/-- The trimmed form of a text is its one bare part with nothing but white space around. -/
theorem trim_eq_iff : trim cs = t ↔
    Bare t ∧ ∃ before after, cs = before ++ t ++ after ∧ Blank before ∧ Blank after := by
  constructor
  · rintro rfl
    exact ⟨bare_trim cs, trim_parts cs⟩
  · rintro ⟨hbare, before, after, rfl, hbefore, hafter⟩
    exact trim_of_parts hbare hbefore hafter

theorem bare_nil : Bare [] := ⟨nofun, nofun⟩

theorem trim_eq_nil_iff : trim cs = [] ↔ Blank cs := by
  constructor
  · intro h
    obtain ⟨before, after, hparts, hbefore, hafter⟩ := trim_parts cs
    rw [h, List.append_nil] at hparts
    rw [hparts]
    exact List.forall_mem_append.mpr ⟨hbefore, hafter⟩
  · intro h
    refine trim_eq_iff.mpr ⟨bare_nil, cs, [], ?_, h, nofun⟩
    rw [List.append_nil, List.append_nil]

end LoaderBench.Text
