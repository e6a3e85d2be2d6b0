/-!
# Lines

A text is cut after each of its line breaks. The line break is not part of the line, and neither is a
carriage return right before it. What comes after the last line break is a line if it is not empty.
Lines that hold neither character are given back when each is written with a line break.
-/

namespace LoaderBench.Text

/-- A line without the carriage return at its end; its characters are in reverse. -/
def withoutReturn : List Char → List Char
  | '\r' :: line => line
  | line => line

/-- The lines of a text, given the characters of the first line that come before it, in reverse. -/
def linesFrom : List Char → List Char → List (List Char)
  | [], [] => []
  | seen, [] => [seen.reverse]
  | seen, c :: cs =>
    if c = '\n' then (withoutReturn seen).reverse :: linesFrom [] cs else linesFrom (c :: seen) cs

/-- The lines of a text. -/
def lines (s : String) : List String := (linesFrom [] s.toList).map String.ofList

/-- A text without line breaks and carriage returns. -/
def Unbroken (cs : List Char) : Prop := ∀ c ∈ cs, c ≠ '\n' ∧ c ≠ '\r'

theorem withoutReturn_of_unbroken {seen : List Char} (h : Unbroken seen) :
    withoutReturn seen = seen := by
  cases seen with
  | nil => rfl
  | cons c seen =>
    have hc := (h c List.mem_cons_self).2
    unfold withoutReturn
    split
    · rename_i line hline
      cases hline
      exact absurd rfl hc
    · rfl

theorem count_withoutReturn {c : Char} (hc : c ≠ '\r') (seen : List Char) :
    (withoutReturn seen).count c = seen.count c := by
  unfold withoutReturn
  split
  · exact (List.count_cons_of_ne hc.symm).symm
  · rfl

/-- Characters without a line break make up one line with those before them. -/
theorem linesFrom_line {line : List Char} (h : '\n' ∉ line) (seen rest : List Char) :
    linesFrom seen (line ++ '\n' :: rest) =
      (withoutReturn (line.reverse ++ seen)).reverse :: linesFrom [] rest := by
  induction line generalizing seen with
  | nil => simp only [List.nil_append, linesFrom, if_true, List.reverse_nil]
  | cons c line ih =>
    have hc : c ≠ '\n' := fun hc => h (hc ▸ List.mem_cons_self)
    have hline : '\n' ∉ line := fun hmem => h (List.mem_cons_of_mem _ hmem)
    simp only [List.cons_append, linesFrom, hc, if_false, ih hline, List.reverse_cons,
      List.append_assoc, List.nil_append]

theorem linesFrom_break {line : List Char} (h : Unbroken line) {seen : List Char}
    (hs : Unbroken seen) (rest : List Char) :
    linesFrom seen (line ++ '\n' :: rest) = (seen.reverse ++ line) :: linesFrom [] rest := by
  have hseen : Unbroken (line.reverse ++ seen) := by
    intro c hc
    rcases List.mem_append.mp hc with hc | hc
    · exact h c (List.mem_reverse.mp hc)
    · exact hs c hc
  rw [linesFrom_line (fun hn => (h _ hn).1 rfl), withoutReturn_of_unbroken hseen,
    List.reverse_append, List.reverse_reverse]

/-- A text with its only line break at the end is one line. -/
theorem lines_line {line : String} (h : '\n' ∉ line.toList) :
    lines (line ++ "\n") = [String.ofList (withoutReturn line.toList.reverse).reverse] := by
  have hbreak : (line ++ "\n").toList = line.toList ++ '\n' :: [] := String.toList_append
  rw [lines, hbreak, linesFrom_line h, List.append_nil]
  rfl

/-- Lines that are written with a line break each are given back. -/
theorem lines_join {ls : List String} (h : ∀ l ∈ ls, Unbroken l.toList) :
    lines (String.join (ls.map (· ++ "\n"))) = ls := by
  induction ls with
  | nil => rfl
  | cons l ls ih =>
    have hl := h l List.mem_cons_self
    have hls := ih fun l hl => h l (List.mem_cons_of_mem _ hl)
    have hnone : Unbroken [] := fun c hc => absurd hc List.not_mem_nil
    simp only [lines, String.toList_join] at hls ⊢
    have hbreak := linesFrom_break hl hnone
      ((ls.map (· ++ "\n")).flatMap String.toList)
    simp [hbreak, hls, String.ofList_toList]

example : lines "a\r\nb\r" = ["a", "b\r"] := by decide

end LoaderBench.Text
