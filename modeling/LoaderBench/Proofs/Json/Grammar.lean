import LoaderBench.Json.Lexeme
import LoaderBench.Proofs.Text.Numeral

/-!
# What a JSON text is

The grammar of JSON texts, told without any reader: blanks, the spellings of a string, numbers, and the
parts between brackets, with blanks around each. A part is told by its own text, so that what is said of
all parts of a value says nothing about the blanks and commas between them.

Escapes of single halves of a pair are proper strings; no text is spelled by them.
-/

namespace LoaderBench.Json

open LoaderBench.Text

variable {α : Type} {s rest : Input}

/-! ### Blanks -/

def Blank (b : Input) : Prop := ∀ c ∈ b, isBlank c = true

theorem skipBlanks_cons {c : Char} (h : isBlank c = false) (s : Input) :
    skipBlanks (c :: s) = c :: s := by
  simp [skipBlanks, h]

theorem skipBlanks_blank {c : Char} (h : isBlank c = true) (s : Input) :
    skipBlanks (c :: s) = skipBlanks s := by
  simp [skipBlanks, h]

theorem blank_nil : Blank [] := nofun

theorem Blank.append {b b' : Input} (hb : Blank b) (hb' : Blank b') : Blank (b ++ b') :=
  List.forall_mem_append.mpr ⟨hb, hb'⟩

theorem Blank.skipBlanks {b : Input} (h : Blank b) (s : Input) :
    skipBlanks (b ++ s) = skipBlanks s := List.dropWhile_append_of_pos h

theorem Blank.skipBlanks_nil {b : Input} (h : Blank b) : Json.skipBlanks b = [] := by
  have hall := h.skipBlanks []
  rwa [List.append_nil] at hall

theorem isBlank_of_isDigit {c : Char} (hc : c.isDigit = true) : isBlank c = false := by
  have hspace : c ≠ ' ' := ne_of_isDigit hc (by decide)
  have hbreak : c ≠ '\n' := ne_of_isDigit hc (by decide)
  have htab : c ≠ '\t' := ne_of_isDigit hc (by decide)
  have hreturn : c ≠ '\r' := ne_of_isDigit hc (by decide)
  simp [isBlank, hspace, hbreak, htab, hreturn]

/-! ### Strings -/

/-- The code unit that four hexadecimal digits tell. -/
def codeUnit? : Input → Option Nat
  | [a, b, c, d] => do
    let a ← hexDigit a
    let b ← hexDigit b
    let c ← hexDigit c
    let d ← hexDigit d
    some (((a * 16 + b) * 16 + c) * 16 + d)
  | _ => none

/-- What may stand between the quotes of a string. -/
inductive IsBody : Input → Prop where
  | nil : IsBody []
  | plain {c : Char} {s : Input} (hquote : c ≠ '"') (hslash : c ≠ '\\') (hcontrol : ¬ c < ' ')
      (h : IsBody s) : IsBody (c :: s)
  | short {c d : Char} {s : Input} (hshort : shortEscapes.lookup d = some c) (h : IsBody s) :
      IsBody ('\\' :: d :: s)
  | unit {n : Nat} {ds s : Input} (hunit : codeUnit? ds = some n) (h : IsBody s) :
      IsBody ('\\' :: 'u' :: (ds ++ s))

/-- The ways to spell a text between quotes. Each character stands for itself, unless it must not, or
is escaped by a letter, by its code unit, or by the pair of its halves. -/
inductive Spells : List Char → Input → Prop where
  | nil : Spells [] []
  | plain {c : Char} {cs : List Char} {s : Input} (hquote : c ≠ '"') (hslash : c ≠ '\\')
      (hcontrol : ¬ c < ' ') (h : Spells cs s) : Spells (c :: cs) (c :: s)
  | short {c d : Char} {cs : List Char} {s : Input} (hshort : shortEscapes.lookup d = some c)
      (h : Spells cs s) : Spells (c :: cs) ('\\' :: d :: s)
  | unit {c : Char} {cs : List Char} {ds s : Input} (hunit : codeUnit? ds = some c.toNat)
      (h : Spells cs s) : Spells (c :: cs) ('\\' :: 'u' :: (ds ++ s))
  | pair {high low : Nat} {cs : List Char} {ds es s : Input} (hhigh : isHighSurrogate high = true)
      (hlow : isLowSurrogate low = true) (hfirst : codeUnit? ds = some high)
      (hsecond : codeUnit? es = some low) (h : Spells cs s) :
      Spells (pairedChar high low :: cs) ('\\' :: 'u' :: (ds ++ '\\' :: 'u' :: (es ++ s)))

/-- The texts of a string. -/
def TextOf (t : String) (w : Input) : Prop := ∃ body, Spells t.toList body ∧ w = '"' :: (body ++ ['"'])

/-! ### Numbers -/

/-- The part of a number before its point. A leading zero stands alone. -/
def IsWhole (s : Input) : Prop := s = ['0'] ∨ Digits s ∧ s.head? ≠ some '0'

def IsFraction (s : Input) : Prop := s = [] ∨ ∃ ds, Digits ds ∧ s = '.' :: ds

def IsExponent (s : Input) : Prop :=
  s = [] ∨ ∃ e sign ds, (e = 'e' ∨ e = 'E') ∧ (sign = [] ∨ sign = ['+'] ∨ sign = ['-']) ∧
    Digits ds ∧ s = e :: (sign ++ ds)

def IsNumber (s : Input) : Prop :=
  ∃ sign whole fraction exponent, (sign = [] ∨ sign = ['-']) ∧ IsWhole whole ∧
    IsFraction fraction ∧ IsExponent exponent ∧ s = sign ++ (whole ++ (fraction ++ exponent))

/-- What may follow a number: nothing that goes on with it. -/
def EndsNumber (rest : Input) : Prop :=
  ∀ c ∈ rest.head?, c.isDigit = false ∧ c ≠ '.' ∧ c ≠ 'e' ∧ c ≠ 'E'

theorem endsNumber_cons {c : Char} {rest : Input}
    (h : c.isDigit = false ∧ c ≠ '.' ∧ c ≠ 'e' ∧ c ≠ 'E') : EndsNumber (c :: rest) := by
  intro d hd
  cases hd
  exact h

/-- What follows a number goes on to follow it after blanks. -/
theorem Blank.endsNumber {b : Input} (h : Blank b) (hs : EndsNumber s) : EndsNumber (b ++ s) := by
  cases b with
  | nil => exact hs
  | cons c b =>
    have hblank := h c List.mem_cons_self
    rw [isBlank, Bool.or_eq_true, Bool.or_eq_true, Bool.or_eq_true, beq_iff_eq, beq_iff_eq,
      beq_iff_eq, beq_iff_eq] at hblank
    refine endsNumber_cons ?_
    rcases hblank with ((rfl | rfl) | rfl) | rfl <;> decide

theorem endsNumber_nil : EndsNumber [] := nofun

/-! ### Parts between brackets -/

/-- A text with blanks before and after it. -/
def Around (w s : Input) : Prop := ∃ b b', Blank b ∧ Blank b' ∧ s = b ++ (w ++ b')

theorem Around.append_blank {w : Input} (h : Around w s) {b : Input} (hb : Blank b) :
    Around w (s ++ b) := by
  obtain ⟨before, after, hbefore, hafter, rfl⟩ := h
  exact ⟨before, after ++ b, hbefore, hafter.append hb, by simp only [List.append_assoc]⟩

/-- A member of an object, which is told by its key and the text of its value. The key is written as
`key` says. -/
def MemberText {κ : Type} (key : κ → Input → Prop) (m : κ × Input) (s : Input) : Prop :=
  ∃ b k b' v, Blank b ∧ key m.1 k ∧ Blank b' ∧ Around m.2 v ∧
    s = b ++ '"' :: (k ++ '"' :: (b' ++ ':' :: v))

/-- What follows a part between brackets: further parts, each after a comma, and the closing
bracket. -/
inductive Following (closing : Char) (part : α → Input → Prop) : List α → Input → Prop where
  | closes : Following closing part [] [closing]
  | next {a : α} {as : List α} {s t : Input} (ha : part a s) (h : Following closing part as t) :
      Following closing part (a :: as) (',' :: (s ++ t))

/-- Parts between brackets. -/
inductive Enclosed (opening closing : Char) (part : α → Input → Prop) : List α → Input → Prop where
  | empty {b : Input} (hb : Blank b) : Enclosed opening closing part [] (opening :: (b ++ [closing]))
  | parts {a : α} {as : List α} {s t : Input} (ha : part a s) (h : Following closing part as t) :
      Enclosed opening closing part (a :: as) (opening :: (s ++ t))

/-- The texts of an array, told by the texts of its items. -/
def ArrayText (ws : List Input) (s : Input) : Prop := Enclosed '[' ']' Around ws s

/-- The texts of a member. Its key may be spelled in any way. -/
def KeyedText (m : String × Input) (s : Input) : Prop := MemberText (fun k => Spells k.toList) m s

/-- The texts of an object, told by its keys and the texts of their values. -/
def ObjectText (ms : List (String × Input)) (s : Input) : Prop :=
  Enclosed '\x7b' '\x7d' KeyedText ms s

/-- The texts of JSON values, without blanks around them. -/
inductive IsValue : Input → Prop where
  | word {s : Input} (h : s ∈ [['n', 'u', 'l', 'l'], ['t', 'r', 'u', 'e'], ['f', 'a', 'l', 's', 'e']]) :
      IsValue s
  | number {s : Input} (h : IsNumber s) : IsValue s
  | string {body : Input} (h : IsBody body) : IsValue ('"' :: (body ++ ['"']))
  | array {ws : List Input} {s : Input} (hws : ∀ w ∈ ws, IsValue w) (h : ArrayText ws s) : IsValue s
  | object {ms : List (Input × Input)} {s : Input} (hkeys : ∀ m ∈ ms, IsBody m.1)
      (hvalues : ∀ m ∈ ms, IsValue m.2)
      (h : Enclosed '\x7b' '\x7d' (MemberText fun k body => body = k) ms s) : IsValue s

variable {closing : Char} {part : α → Input → Prop} {as : List α} {t : Input}

theorem Following.length_lt (h : Following closing part as t) : as.length < t.length := by
  induction h with
  | closes => exact Nat.zero_lt_one
  | next ha _ ih =>
    simp only [List.length_cons, List.length_append]
    omega

theorem Following.endsNumber (h : Following closing part as t)
    (hclosing : EndsNumber (closing :: rest)) : EndsNumber (t ++ rest) := by
  cases h with
  | closes => exact hclosing
  | next ha h => exact endsNumber_cons (by decide)

/-! ### First characters -/

/-- A text that begins with a character which is no blank and closes no array. -/
def Begins (w : Input) : Prop := ∃ c cs, w = c :: cs ∧ isBlank c = false ∧ c ≠ ']'

theorem Begins.skipBlanks {w : Input} (h : Begins w) (s : Input) :
    skipBlanks (w ++ s) = w ++ s := by
  obtain ⟨c, cs, rfl, hc, -⟩ := h
  exact skipBlanks_cons hc _

theorem begins_of_isDigit {c : Char} (hc : c.isDigit = true) (cs : Input) : Begins (c :: cs) :=
  ⟨c, cs, rfl, isBlank_of_isDigit hc, ne_of_isDigit hc (by decide)⟩

theorem IsWhole.cons (h : IsWhole s) : ∃ c cs, s = c :: cs ∧ c.isDigit = true := by
  rcases h with rfl | ⟨hdigits, -⟩
  · exact ⟨'0', [], rfl, by decide⟩
  · exact hdigits.cons

theorem IsValue.begins (h : IsValue s) : Begins s := by
  cases h with
  | word h =>
    rcases List.mem_cons.mp h with rfl | h
    · exact ⟨_, _, rfl, by decide, by decide⟩
    · rcases List.mem_cons.mp h with rfl | h
      · exact ⟨_, _, rfl, by decide, by decide⟩
      · obtain rfl := List.mem_singleton.mp h
        exact ⟨_, _, rfl, by decide, by decide⟩
  | number h =>
    obtain ⟨sign, whole, fraction, exponent, hsign, hwhole, -, -, rfl⟩ := h
    rcases hsign with rfl | rfl
    · obtain ⟨c, cs, rfl, hc⟩ := hwhole.cons
      exact begins_of_isDigit hc _
    · exact ⟨'-', _, rfl, by decide, by decide⟩
  | string h => exact ⟨'"', _, rfl, by decide, by decide⟩
  | array hws h => cases h <;> exact ⟨'[', _, rfl, by decide, by decide⟩
  | object hkeys hvalues h => cases h <;> exact ⟨'\x7b', _, rfl, by decide, by decide⟩

end LoaderBench.Json
