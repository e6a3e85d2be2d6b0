import LoaderBench.Text.Utf8

/-!
# What a process is given

A process has a number, and an environment that assigns byte strings to byte strings. Setting a
variable replaces its value. An environment is handed to a program as texts `variable=value`, and
the program looks a name up in them: `found?_eq_get?` says that it finds what was set, as long as no
text begins with the name and an equals sign but that of the variable. A variable that has such a sign
in its name is found under every name that ends before it.
-/

namespace LoaderBench.Platform

/-- The number of a process, as text. -/
structure ProcessId where
  text : String
  nonempty : text ≠ ""

/-- An environment, as pairs of variable and value. -/
structure Environment where
  pairs : List (Bytes × Bytes)
  deriving DecidableEq

namespace Environment

def empty : Environment := ⟨[]⟩

def get? (environment : Environment) (key : Bytes) : Option Bytes := environment.pairs.lookup key

/-- The value of a variable whose name is a text. -/
def named? (environment : Environment) (key : String) : Option Bytes :=
  environment.get? (Utf8.encode key)

def set (environment : Environment) (key value : Bytes) : Environment :=
  ⟨(key, value) :: environment.pairs.filter (·.1 != key)⟩

def setAll (environment : Environment) (pairs : List (Bytes × Bytes)) : Environment :=
  pairs.foldl (fun e p => e.set p.1 p.2) environment

/-- The environment that pairs make, the later ones replacing the earlier. -/
def ofPairs (pairs : List (Bytes × Bytes)) : Environment := empty.setAll pairs

theorem get?_set_self (environment : Environment) (key value : Bytes) :
    (environment.set key value).get? key = some value := by
  simp [get?, set]

theorem get?_set_other (environment : Environment) {key other : Bytes} (value : Bytes)
    (h : other ≠ key) : (environment.set key value).get? other = environment.get? other := by
  have hb : (other == key) = false := by simpa using h
  simp only [get?, set, List.lookup_cons, hb]
  generalize environment.pairs = pairs
  induction pairs with
  | nil => rfl
  | cons p rest ih =>
    obtain ⟨k, v⟩ := p
    by_cases hk : k = key
    · subst hk
      simp [List.lookup_cons, hb, ih]
    · have hne : (k != key) = true := by simpa using hk
      simp [List.lookup_cons, hne, ih]

/-- A variable set several times has its last value, and one that is not set keeps its own. -/
theorem get?_setAll (environment : Environment) (pairs : List (Bytes × Bytes)) (key : Bytes) :
    (environment.setAll pairs).get? key = (pairs.reverse.lookup key).or (environment.get? key) := by
  induction pairs generalizing environment with
  | nil => simp [setAll]
  | cons p rest ih =>
    obtain ⟨k, v⟩ := p
    have step : environment.setAll ((k, v) :: rest) = (environment.set k v).setAll rest := rfl
    rw [step, ih, List.reverse_cons, List.lookup_append]
    by_cases h : key = k
    · subst h
      rw [get?_set_self]
      cases rest.reverse.lookup key <;> simp
    · have hb : (key == k) = false := by simpa using h
      rw [get?_set_other environment v h]
      cases rest.reverse.lookup key <;> simp [List.lookup_cons, hb]

def KeysDistinct (environment : Environment) : Prop := (environment.pairs.map Prod.fst).Nodup

theorem keysDistinct_empty : empty.KeysDistinct := by simp [KeysDistinct, empty]

theorem keysDistinct_set {environment : Environment} (h : environment.KeysDistinct)
    (key value : Bytes) : (environment.set key value).KeysDistinct := by
  simp only [KeysDistinct, set, List.map_cons, List.nodup_cons]
  refine ⟨by simp, ?_⟩
  exact h.sublist ((List.filter_sublist).map Prod.fst)

theorem keysDistinct_setAll {environment : Environment} (h : environment.KeysDistinct)
    (pairs : List (Bytes × Bytes)) : (environment.setAll pairs).KeysDistinct := by
  induction pairs generalizing environment with
  | nil => exact h
  | cons p rest ih => exact ih (keysDistinct_set h p.1 p.2)

/-! ### Handing over -/

/-- The byte that parts a variable from its value. -/
def equalsSign : UInt8 := 61

def joined (p : Bytes × Bytes) : Bytes := p.1 ++ equalsSign :: p.2

/-- The variable and the value of a text: the first equals sign that is not in front parts them. -/
def parted : Bytes → Option (Bytes × Bytes)
  | [] => none
  | b :: rest =>
    match rest.dropWhile (· != equalsSign) with
    | [] => none
    | _ :: value => some (b :: rest.takeWhile (· != equalsSign), value)

/-- The texts in which an environment is handed over, in the order of the variables. -/
def texts (environment : Environment) : List Bytes :=
  (environment.pairs.mergeSort fun a b => decide (a.1 ≤ b.1)).map joined

/-- The environment of a program that is handed some texts. -/
def ofTexts (texts : List Bytes) : Environment := ⟨texts.filterMap parted⟩

/-- The value that a program finds under a name: what follows the name and an equals sign in the
first text that begins with them. There is nothing under the empty name. -/
def found? (environment : Environment) (name : Bytes) : Option Bytes :=
  if name = [] then none
  else environment.texts.findSome? (name ++ [equalsSign]).isPrefixOf?

theorem isPrefixOf?_nil (bytes : Bytes) : ([] : Bytes).isPrefixOf? bytes = some bytes := rfl

theorem isPrefixOf?_cons_cons (a b : UInt8) (name bytes : Bytes) :
    (a :: name).isPrefixOf? (b :: bytes) = if a == b then name.isPrefixOf? bytes else none := rfl

/-- Where no equals sign is in the name or the variable, a text begins with the name and an equals
sign exactly if the name is the variable, and the value follows. -/
theorem isPrefixOf?_joined {name key : Bytes} (value : Bytes) (hname : equalsSign ∉ name)
    (hkey : equalsSign ∉ key) :
    (name ++ [equalsSign]).isPrefixOf? (joined (key, value)) =
      if name = key then some value else none := by
  induction name generalizing key with
  | nil =>
    cases key with
    | nil => simp [joined, isPrefixOf?_cons_cons, isPrefixOf?_nil]
    | cons b key =>
      have hb : equalsSign ≠ b := fun h => hkey (by simp [h])
      simp [joined, isPrefixOf?_cons_cons, hb]
  | cons a name ih =>
    have ha : a ≠ equalsSign := fun h => hname (by simp [h])
    cases key with
    | nil => simp [joined, isPrefixOf?_cons_cons, ha]
    | cons b key =>
      have hrest : (name ++ [equalsSign]).isPrefixOf? (joined (key, value)) =
          if name = key then some value else none :=
        ih (fun h => hname (by simp [h])) (fun h => hkey (by simp [h]))
      simp only [joined, List.cons_append] at hrest ⊢
      by_cases hab : a = b
      · simp [isPrefixOf?_cons_cons, hab, hrest]
      · simp [isPrefixOf?_cons_cons, hab]

/-- If every text begins with the name and an equals sign exactly where the name is its variable, the
first text that does is the first pair of the name. -/
theorem findSome?_joined {pairs : List (Bytes × Bytes)} {name : Bytes}
    (h : ∀ p ∈ pairs, (name ++ [equalsSign]).isPrefixOf? (joined p) =
      if name = p.1 then some p.2 else none) :
    (pairs.map joined).findSome? (name ++ [equalsSign]).isPrefixOf? = pairs.lookup name := by
  induction pairs with
  | nil => rfl
  | cons p rest ih =>
    obtain ⟨key, value⟩ := p
    have hp := h (key, value) (by simp)
    have hrest := ih fun q hq => h q (by simp [hq])
    rw [List.map_cons, List.findSome?_cons, hp, hrest]
    by_cases h : name = key
    · have hb : (name == key) = true := by simpa using h
      simp only [List.lookup_cons, hb, if_pos h]
    · have hb : (name == key) = false := by simpa using h
      simp only [List.lookup_cons, hb, if_neg h]

/-- The order of pairs does not matter to a look-up if no key comes twice. -/
theorem lookup_eq_of_perm {l m : List (Bytes × Bytes)} (h : l.Perm m) (name : Bytes)
    (hn : (l.map Prod.fst).Nodup) : l.lookup name = m.lookup name := by
  induction h with
  | nil => rfl
  | cons p _ ih =>
    obtain ⟨key, value⟩ := p
    have hrest := ih (List.nodup_cons.1 (by simpa using hn)).2
    simp only [List.lookup_cons, hrest]
  | swap p q l =>
    obtain ⟨key, value⟩ := p
    obtain ⟨other, value'⟩ := q
    have hne : key ≠ other := by
      intro e
      simp [e] at hn
    by_cases hp : name = key
    · have hq : (key == other) = false := by simpa using hne
      simp [List.lookup_cons, hp, hq]
    · have hb : (name == key) = false := by simpa using hp
      simp [List.lookup_cons, hb]
  | trans h₁ _ ih₁ ih₂ => exact (ih₁ hn).trans (ih₂ ((h₁.map Prod.fst).nodup_iff.1 hn))

/-- A program finds under a name what was set, if no text begins with the name and an equals sign but
that of the variable. -/
theorem found?_eq_get? {environment : Environment} (h : environment.KeysDistinct) {name : Bytes}
    (hname : name ≠ [])
    (hpairs : ∀ p ∈ environment.pairs, (name ++ [equalsSign]).isPrefixOf? (joined p) =
      if name = p.1 then some p.2 else none) :
    environment.found? name = environment.get? name := by
  have hperm := List.mergeSort_perm environment.pairs fun a b => decide (a.1 ≤ b.1)
  have hsorted := findSome?_joined fun p hp => hpairs p (hperm.mem_iff.1 hp)
  have hlook := lookup_eq_of_perm hperm.symm name h
  simp only [found?, if_neg hname, texts, get?]
  exact hsorted.trans hlook.symm

end Environment
end LoaderBench.Platform
