import LoaderBench.Json.Value

/-!
# What stands under a key

The members of an object are a list in which keys may repeat. What counts under a key is the member
that no other of the same key follows.
-/

namespace LoaderBench.Json

variable {ms : Members} {key : String} {v w : Value}

/-- A value that counts under a key: no member of the same key follows. -/
def Holds (ms : Members) (key : String) (v : Value) : Prop :=
  ∃ before after, ms = before ++ (key, v) :: after ∧ ∀ m ∈ after, m.1 ≠ key

def Lacks (ms : Members) (key : String) : Prop := ∀ m ∈ ms, m.1 ≠ key

instance (ms : Members) (key : String) : Decidable (Lacks ms key) :=
  inferInstanceAs (Decidable (∀ m ∈ ms, m.1 ≠ key))

theorem lookup_eq_none_iff : lookup key ms = none ↔ Lacks ms key := by
  induction ms with
  | nil => exact iff_of_true rfl nofun
  | cons m ms ih =>
    obtain ⟨k, v⟩ := m
    rw [Lacks, List.forall_mem_cons, ← Lacks, ← ih, lookup]
    cases lookup key ms with
    | none => simp
    | some w => simp

theorem lookup_of_holds (h : Holds ms key v) : lookup key ms = some v := by
  obtain ⟨before, after, rfl, hafter⟩ := h
  have hlast : lookup key ((key, v) :: after) = some v := by
    rw [lookup, lookup_eq_none_iff.mpr hafter, if_pos rfl]
  rw [lookup_append, hlast, Option.some_or]

theorem lookup_eq_some_iff : lookup key ms = some v ↔ Holds ms key v := by
  refine ⟨fun h => ?_, lookup_of_holds⟩
  induction ms with
  | nil => cases h
  | cons m ms ih =>
    obtain ⟨k, w⟩ := m
    rw [lookup] at h
    split at h
    · rename_i last hlast
      obtain ⟨before, after, rfl, hafter⟩ := ih (hlast.trans h)
      exact ⟨(k, w) :: before, after, rfl, hafter⟩
    · rename_i hnone
      split at h
      · rename_i hkey
        cases h
        exact ⟨[], ms, by rw [hkey, List.nil_append], lookup_eq_none_iff.mp hnone⟩
      · cases h

theorem Holds.ne_nil (h : Holds ms key v) : ms ≠ [] := by
  obtain ⟨before, after, rfl, -⟩ := h
  exact List.append_ne_nil_of_right_ne_nil _ (List.cons_ne_nil _ _)

theorem Holds.unique (h : Holds ms key v) (h' : Holds ms key w) : v = w :=
  Option.some.inj ((lookup_of_holds h).symm.trans (lookup_of_holds h'))

theorem eraseDups_eq_nil_iff {ks : List String} : ks.eraseDups = [] ↔ ks = [] := by
  cases ks with
  | nil => exact iff_of_true List.eraseDups_nil rfl
  | cons k ks =>
    rw [List.eraseDups_cons]
    exact iff_of_false nofun nofun

/-- An object has one key if all of its members have it. -/
theorem keys_eq_singleton_iff : keys ms = [key] ↔ ms ≠ [] ∧ ∀ m ∈ ms, m.1 = key := by
  cases ms with
  | nil => exact iff_of_false nofun fun h => h.1 rfl
  | cons m ms =>
    have hothers : ((ms.map Prod.fst).filter fun k => !k == m.1).eraseDups = [] ↔
        ∀ m' ∈ ms, m'.1 = m.1 := by
      rw [eraseDups_eq_nil_iff]
      simp [List.filter_eq_nil_iff]
    rw [keys, List.map_cons, List.eraseDups_cons, List.forall_mem_cons, List.cons.injEq, hothers]
    constructor
    · rintro ⟨rfl, hall⟩
      exact ⟨List.cons_ne_nil _ _, rfl, hall⟩
    · rintro ⟨-, rfl, hall⟩
      exact ⟨rfl, hall⟩

end LoaderBench.Json
