/-!
# The front of a list

What a reader takes from the front of a list is a part in which every element qualifies, if the element
that follows it does not. A part that ends at a separator holds none itself.
-/

namespace LoaderBench.Text

section

variable {α : Type} {p : α → Bool} {l rest : List α}

theorem takeWhile_front (hl : ∀ a ∈ l, p a = true) (hrest : ∀ a ∈ rest.head?, p a = false) :
    (l ++ rest).takeWhile p = l := by
  rw [List.takeWhile_append_of_pos hl]
  cases rest with
  | nil => exact List.append_nil l
  | cons a rest => simp [hrest a rfl]

theorem dropWhile_front (hl : ∀ a ∈ l, p a = true) (hrest : ∀ a ∈ rest.head?, p a = false) :
    (l ++ rest).dropWhile p = rest := by
  rw [List.dropWhile_append_of_pos hl]
  cases rest with
  | nil => rfl
  | cons a rest => simp [hrest a rfl]

theorem head?_dropWhile (p : α → Bool) (l : List α) :
    ∀ a ∈ (l.dropWhile p).head?, p a = false := by
  intro a ha
  have hnot := List.head?_dropWhile_not p l
  rw [Option.mem_def.mp ha] at hnot
  exact hnot

theorem takeWhile_all (hl : ∀ a ∈ l, p a = true) : l.takeWhile p = l := by
  have hwhole : (l ++ []).takeWhile p = l := takeWhile_front hl nofun
  rwa [List.append_nil] at hwhole

end

section

variable {α : Type} [BEq α] [LawfulBEq α] {a : α} {l : List α}

theorem bne_of_not_mem (h : a ∉ l) : ∀ b ∈ l, (b != a) = true := by
  intro b hb
  rw [bne_iff_ne]
  rintro rfl
  exact h hb

theorem bne_head (a : α) (rest : List α) : ∀ b ∈ (a :: rest).head?, (b != a) = false := by
  intro b hb
  cases hb
  exact bne_self_eq_false a

theorem takeWhile_bne (h : a ∉ l) (rest : List α) : (l ++ a :: rest).takeWhile (· != a) = l :=
  takeWhile_front (bne_of_not_mem h) (bne_head a rest)

theorem dropWhile_bne (h : a ∉ l) (rest : List α) :
    (l ++ a :: rest).dropWhile (· != a) = a :: rest :=
  dropWhile_front (bne_of_not_mem h) (bne_head a rest)

end

end LoaderBench.Text
