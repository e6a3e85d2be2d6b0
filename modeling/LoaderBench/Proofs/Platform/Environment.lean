import LoaderBench.Platform.Process
import LoaderBench.Proofs.Text.Front
import Mathlib.Data.List.TakeWhile

/-!
# What settings make of an environment

After some variables have been set, a pair is one of the settings, or it is an old one whose variable
was not set. An environment in which every variable has one value, and no equals sign in its name, stays
so, and a program that is handed it finds under each name what the environment has there. The same holds
of every environment that a process can have, in which the names are those that `parted` finds in texts.
-/

namespace LoaderBench.Platform.Environment

variable {environment : Environment} {settings : List (Bytes × Bytes)} {p : Bytes × Bytes}

/-! ### Pairs -/

theorem mem_pairs_set {key value : Bytes} (h : p ∈ (environment.set key value).pairs) :
    p = (key, value) ∨ p ∈ environment.pairs ∧ p.1 ≠ key := by
  rcases List.mem_cons.mp h with h | h
  · exact .inl h
  · obtain ⟨hmem, hne⟩ := List.mem_filter.mp h
    exact .inr ⟨hmem, bne_iff_ne.mp hne⟩

theorem mem_pairs_setAll (h : p ∈ (environment.setAll settings).pairs) :
    p ∈ settings ∨ p ∈ environment.pairs ∧ ∀ s ∈ settings, p.1 ≠ s.1 := by
  induction settings generalizing environment with
  | nil => exact .inr ⟨h, nofun⟩
  | cons s settings ih =>
    have hset : p ∈ ((environment.set s.1 s.2).setAll settings).pairs := h
    rcases ih hset with hmem | ⟨hmem, hne⟩
    · exact .inl (List.mem_cons_of_mem _ hmem)
    · rcases mem_pairs_set hmem with rfl | ⟨hold, hkey⟩
      · exact .inl List.mem_cons_self
      · exact .inr ⟨hold, List.forall_mem_cons.mpr ⟨hkey, hne⟩⟩

theorem get?_setAll_other {key : Bytes} (h : ∀ s ∈ settings, key ≠ s.1) :
    (environment.setAll settings).get? key = environment.get? key := by
  induction settings generalizing environment with
  | nil => rfl
  | cons s settings ih =>
    obtain ⟨hkey, hrest⟩ := List.forall_mem_cons.mp h
    have hset : (environment.setAll (s :: settings)).get? key =
        ((environment.set s.1 s.2).setAll settings).get? key := rfl
    rw [hset, ih hrest, get?_set_other _ _ hkey]

/-! ### Environments of programs -/

/-- An environment as a program can have it: a variable has one value, and no equals sign in its name. -/
structure Proper (environment : Environment) : Prop where
  distinct : environment.KeysDistinct
  plain : ∀ p ∈ environment.pairs, equalsSign ∉ p.1

theorem Proper.setAll (h : environment.Proper) (hsettings : ∀ s ∈ settings, equalsSign ∉ s.1) :
    (environment.setAll settings).Proper := by
  refine ⟨keysDistinct_setAll h.distinct settings, fun p hp => ?_⟩
  rcases mem_pairs_setAll hp with hmem | ⟨hmem, -⟩
  · exact hsettings p hmem
  · exact h.plain p hmem

theorem Proper.found? (h : environment.Proper) {name : Bytes} (hname : name ≠ [])
    (hplain : equalsSign ∉ name) : environment.found? name = environment.get? name :=
  found?_eq_get? h.distinct hname fun p hp => isPrefixOf?_joined p.2 hplain (h.plain p hp)

/-! ### Names

A variable has a name that is not empty. An equals sign may stand in front of it, and nowhere else: the
first one behind its first byte parts it from its value. -/

def IsName (name : Bytes) : Prop := ∃ b rest, name = b :: rest ∧ equalsSign ∉ rest

theorem isName_of_parted {text : Bytes} (h : parted text = some p) : IsName p.1 := by
  cases text with
  | nil => cases h
  | cons b rest =>
    rw [parted] at h
    split at h
    · cases h
    · obtain rfl := Option.some.inj h
      refine ⟨b, _, rfl, fun hmem => ?_⟩
      have hother := List.mem_takeWhile_imp hmem
      simp at hother

theorem parted_joined (h : IsName p.1) : parted (joined p) = some p := by
  obtain ⟨key, value⟩ := p
  obtain ⟨b, rest, rfl, hrest⟩ := h
  have hvalue := Text.dropWhile_bne hrest value
  have hname := Text.takeWhile_bne hrest value
  simp only [joined, List.cons_append, parted, hvalue, hname]

theorem parted_all {pairs : List (Bytes × Bytes)} (h : ∀ p ∈ pairs, IsName p.1) :
    (pairs.map joined).filterMap parted = pairs := by
  induction pairs with
  | nil => rfl
  | cons p pairs ih =>
    obtain ⟨hp, hpairs⟩ := List.forall_mem_cons.mp h
    rw [List.map_cons, List.filterMap_cons_some (parted_joined hp), ih hpairs]

/-- A text begins with a name and an equals sign exactly if the name is its variable. -/
theorem IsName.isPrefixOf?_joined {name : Bytes} (hname : IsName name) (hp : IsName p.1) :
    (name ++ [equalsSign]).isPrefixOf? (joined p) = if name = p.1 then some p.2 else none := by
  obtain ⟨key, value⟩ := p
  obtain ⟨a, name, rfl, hname⟩ := hname
  obtain ⟨b, key, rfl, hkey⟩ := hp
  have hrest := Environment.isPrefixOf?_joined value hname hkey
  simp only [joined] at hrest
  simp only [joined, List.cons_append, isPrefixOf?_cons_cons, hrest]
  by_cases hab : a = b
  · simp [hab]
  · simp [hab]

/-- An environment as a process has it: of each variable there is one value, and each has a name. -/
structure Regular (environment : Environment) : Prop where
  distinct : environment.KeysDistinct
  names : ∀ p ∈ environment.pairs, IsName p.1

theorem regular_empty : empty.Regular := ⟨keysDistinct_empty, nofun⟩

theorem Regular.setAll (h : environment.Regular) (hsettings : ∀ s ∈ settings, IsName s.1) :
    (environment.setAll settings).Regular := by
  refine ⟨keysDistinct_setAll h.distinct settings, fun p hp => ?_⟩
  rcases mem_pairs_setAll hp with hmem | ⟨hmem, -⟩
  · exact hsettings p hmem
  · exact h.names p hmem

/-- What a process makes of the texts it is handed is regular. -/
theorem regular_of_texts (texts : List Bytes) : (ofPairs (texts.filterMap parted)).Regular := by
  apply regular_empty.setAll
  intro s hs
  obtain ⟨text, -, hparted⟩ := List.mem_filterMap.mp hs
  exact isName_of_parted hparted

theorem Regular.found? (h : environment.Regular) {name : Bytes} (hname : IsName name) :
    environment.found? name = environment.get? name := by
  have hne : name ≠ [] := by
    obtain ⟨b, rest, rfl, -⟩ := hname
    exact List.cons_ne_nil b rest
  exact found?_eq_get? h.distinct hne fun p hp => hname.isPrefixOf?_joined (h.names p hp)

/-- A program that parts the texts it is handed has the same variables with the same values. -/
theorem Regular.get?_ofTexts (h : environment.Regular) (key : Bytes) :
    (ofTexts environment.texts).get? key = environment.get? key := by
  have hperm := List.mergeSort_perm environment.pairs fun a b => decide (a.1 ≤ b.1)
  have hparted : environment.texts.filterMap parted =
      environment.pairs.mergeSort fun a b => decide (a.1 ≤ b.1) :=
    parted_all fun p hp => h.names p (hperm.mem_iff.mp hp)
  rw [get?, ofTexts, hparted]
  exact (lookup_eq_of_perm hperm.symm key h.distinct).symm

/-! ### The last of several -/

/-- What counts of a list in which the last entry counts that tells anything. -/
theorem last_eq_some_iff {α β : Type} {f : α → Option β} {l : List α} {b : β} :
    (l.filterMap f).getLast? = some b ↔
      ∃ before a after, l = before ++ a :: after ∧ f a = some b ∧ ∀ x ∈ after, f x = none := by
  rw [List.getLast?_filterMap, List.findSome?_eq_some_iff]
  constructor
  · rintro ⟨after, a, before, hsplit, ha, hnone⟩
    refine ⟨before.reverse, a, after.reverse, ?_, ha, ?_⟩
    · rw [← List.reverse_reverse l, hsplit]
      simp
    · intro x hx
      exact hnone x (List.mem_reverse.mp hx)
  · rintro ⟨before, a, after, rfl, ha, hnone⟩
    refine ⟨after.reverse, a, before.reverse, by simp, ha, ?_⟩
    intro x hx
    exact hnone x (List.mem_reverse.mp hx)

end LoaderBench.Platform.Environment
