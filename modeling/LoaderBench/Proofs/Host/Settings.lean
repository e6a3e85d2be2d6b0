import LoaderBench.Host.Gathering
import LoaderBench.Proofs.Platform.Environment
import LoaderBench.Proofs.Text.Utf8

/-!
# Which settings count

The loop over the pairs of an environment keeps, for each of two variables, the last value that is not
empty. Pairs of other variables and pairs with empty values play no part, and neither does the order
of pairs of different variables. A run always has a name: bytes are never shown as no text at all.
-/

namespace LoaderBench.Host

open LoaderBench.Platform

variable {key : String} {value : Bytes} {p : Bytes × Bytes} {pairs seen : List (Bytes × Bytes)}

/-! ### Last values -/

/-- The last value of a variable that is not empty. -/
def LastValue (key : String) (pairs : List (Bytes × Bytes)) (value : Bytes) : Prop :=
  value ≠ [] ∧ ∃ before after, pairs = before ++ (Utf8.encode key, value) :: after ∧
    ∀ p ∈ after, p.1 = Utf8.encode key → p.2 = []

/-- Whether a pair tells a value of a variable. -/
def counts (key : String) (p : Bytes × Bytes) : Bool := p.1 == Utf8.encode key && p.2 != []

theorem counts_iff : counts key p = true ↔ p.1 = Utf8.encode key ∧ p.2 ≠ [] := by
  simp [counts]

theorem counts_eq_false_iff : counts key p = false ↔ (p.1 = Utf8.encode key → p.2 = []) := by
  rw [← Bool.not_eq_true, counts_iff]
  by_cases h : p.2 = [] <;> simp [h]

theorem setting_eq (key : String) (pairs : List (Bytes × Bytes)) :
    setting key pairs = (pairs.filter (counts key)).getLast?.map Prod.snd := rfl

theorem setting_eq_some_iff : setting key pairs = some value ↔ LastValue key pairs value := by
  rw [setting_eq, ← List.filterMap_eq_filter, Option.map_eq_some_iff]
  simp only [Environment.last_eq_some_iff, Option.guard_eq_some_iff, Option.guard_eq_none_iff]
  constructor
  · rintro ⟨p, ⟨before, a, after, hsplit, ⟨rfl, ha⟩, hnone⟩, rfl⟩
    obtain ⟨hkey, hne⟩ := counts_iff.mp ha
    refine ⟨hne, before, after, ?_, ?_⟩
    · rw [hsplit, ← hkey]
    · intro x hx
      exact counts_eq_false_iff.mp (hnone x hx)
  · rintro ⟨hne, before, after, hsplit, hnone⟩
    refine ⟨(Utf8.encode key, value), ⟨before, _, after, hsplit, ⟨rfl, ?_⟩, ?_⟩, rfl⟩
    · exact counts_iff.mpr ⟨rfl, hne⟩
    · intro x hx
      exact counts_eq_false_iff.mpr (hnone x hx)

theorem setting_eq_none_iff :
    setting key pairs = none ↔ ∀ p ∈ pairs, p.1 = Utf8.encode key → p.2 = [] := by
  rw [setting_eq, Option.map_eq_none_iff, List.getLast?_eq_none_iff, List.filter_eq_nil_iff]
  simp only [Bool.not_eq_true, counts_eq_false_iff]

theorem setting_concat (key : String) (seen : List (Bytes × Bytes)) (p : Bytes × Bytes) :
    setting key (seen ++ [p]) = if counts key p then some p.2 else setting key seen := by
  by_cases h : counts key p = true
  · simp [setting_eq, h]
  · simp [setting_eq, h]

/-! ### The loop -/

/-- What is gathered from the pairs that were seen. -/
structure Gathered.Holds (gathered : Gathered) (seen : List (Bytes × Bytes)) : Prop where
  logPath : gathered.logPath = setting logVariable seen
  runId : gathered.runId = (setting runVariable seen).map Utf8.lossy

theorem run_ne_log : Utf8.encode runVariable ≠ Utf8.encode logVariable := by
  intro h
  exact absurd (Utf8.encode_inj h) (by decide)

/-- All that one pair can do. -/
theorem Gathered.take_eq (gathered : Gathered) (p : Bytes × Bytes) : gathered.take p =
    { logPath := if counts logVariable p then some p.2 else gathered.logPath
      runId := if counts runVariable p then some (Utf8.lossy p.2) else gathered.runId } := by
  unfold Gathered.take
  by_cases hempty : p.2 = []
  · simp [counts, hempty]
  · by_cases hlog : p.1 = Utf8.encode logVariable
    · simp [counts, hempty, hlog, run_ne_log.symm]
    · by_cases hrun : p.1 = Utf8.encode runVariable
      · simp [counts, hempty, hrun, run_ne_log]
      · simp [counts, hempty, hlog, hrun]

theorem Gathered.Holds.take {gathered : Gathered} (h : gathered.Holds seen) (p : Bytes × Bytes) :
    (gathered.take p).Holds (seen ++ [p]) := by
  rw [Gathered.take_eq]
  constructor
  case logPath => rw [setting_concat, h.logPath]
  case runId => rw [setting_concat, h.runId, apply_ite (Option.map Utf8.lossy), Option.map_some]

theorem Gathered.Holds.foldl {gathered : Gathered} (h : gathered.Holds seen)
    (pairs : List (Bytes × Bytes)) : (pairs.foldl Gathered.take gathered).Holds (seen ++ pairs) := by
  induction pairs generalizing gathered seen with
  | nil =>
    rw [List.append_nil]
    exact h
  | cons p pairs ih =>
    rw [List.append_cons]
    exact ih (h.take p)

namespace Config

theorem gather_eq (process : ProcessId) (pairs : List (Bytes × Bytes)) :
    gather process pairs = ofPairs process pairs := by
  have hnothing : Gathered.nothing.Holds [] := ⟨rfl, rfl⟩
  have hwhole := hnothing.foldl pairs
  simp only [gather, ofPairs, hwhole.logPath, hwhole.runId, List.nil_append]

/-- Only the pairs that tell a value of one of the variables play a part, and each variable for itself. -/
theorem ofPairs_congr (process : ProcessId) {pairs' : List (Bytes × Bytes)}
    (h : ∀ key ∈ [logVariable, runVariable], pairs'.filter (counts key) = pairs.filter (counts key)) :
    ofPairs process pairs' = ofPairs process pairs := by
  have hlog := h logVariable (by simp)
  have hrun := h runVariable (by simp)
  simp only [ofPairs, setting_eq, hlog, hrun]

/-- A pair that is put in changes nothing if it has an empty value or another key. -/
theorem ofPairs_insert (process : ProcessId) (before after : List (Bytes × Bytes))
    (h : p.2 = [] ∨ p.1 ≠ Utf8.encode logVariable ∧ p.1 ≠ Utf8.encode runVariable) :
    ofPairs process (before ++ p :: after) = ofPairs process (before ++ after) := by
  apply ofPairs_congr
  intro key hkey
  have hcounts : counts key p = false := by
    rw [counts_eq_false_iff]
    intro hname
    rcases h with hempty | ⟨hlog, hrun⟩
    · exact hempty
    · rw [List.mem_cons, List.mem_singleton] at hkey
      rcases hkey with rfl | rfl
      · exact absurd hname hlog
      · exact absurd hname hrun
  simp [hcounts]

/-- Pairs may be put into another order, as long as those of each of the two keys keep theirs. -/
theorem ofPairs_reorder (process : ProcessId) {pairs' : List (Bytes × Bytes)}
    (h : ∀ key ∈ [logVariable, runVariable],
      pairs'.filter (·.1 == Utf8.encode key) = pairs.filter (·.1 == Utf8.encode key)) :
    ofPairs process pairs' = ofPairs process pairs := by
  apply ofPairs_congr
  intro key hkey
  have hcounts : counts key = fun p => p.2 != [] && p.1 == Utf8.encode key :=
    funext fun p => Bool.and_comm _ _
  have hparts (l : List (Bytes × Bytes)) : l.filter (counts key) =
      (l.filter (·.1 == Utf8.encode key)).filter (·.2 != []) := by
    rw [List.filter_filter, hcounts]
  rw [hparts, hparts, h key hkey]

theorem runId_ne_empty (process : ProcessId) (pairs : List (Bytes × Bytes)) :
    (ofPairs process pairs).runId ≠ "" := by
  cases hsetting : setting runVariable pairs with
  | none =>
    simp only [ofPairs, hsetting, Option.map_none, Option.getD_none]
    exact process.nonempty
  | some value =>
    simp only [ofPairs, hsetting, Option.map_some, Option.getD_some]
    intro hempty
    exact (setting_eq_some_iff.mp hsetting).1 (Utf8.lossy_eq_empty_iff.mp hempty)

/-- The loop takes the last value that is not empty of each of the two variables, the name of the run as
it is shown. Other pairs may be put in or left out, and pairs of different variables may trade places. -/
theorem ofPairs_takes_last (process : ProcessId) (pairs : List (Bytes × Bytes)) :
    let config := ofPairs process pairs
    gather process pairs = config ∧
      (∀ path, config.logPath = some path ↔ LastValue logVariable pairs path) ∧
      (config.logPath = none ↔ ∀ p ∈ pairs, p.1 = Utf8.encode logVariable → p.2 = []) ∧
      (∀ value, LastValue runVariable pairs value → config.runId = Utf8.lossy value) ∧
      ((∀ p ∈ pairs, p.1 = Utf8.encode runVariable → p.2 = []) → config.runId = process.text) ∧
      config.runId ≠ "" ∧
      (∀ before p after, pairs = before ++ p :: after →
        p.2 = [] ∨ p.1 ≠ Utf8.encode logVariable ∧ p.1 ≠ Utf8.encode runVariable →
        ofPairs process (before ++ after) = config) ∧
      (∀ pairs', (∀ key ∈ [logVariable, runVariable],
          pairs'.filter (·.1 == Utf8.encode key) = pairs.filter (·.1 == Utf8.encode key)) →
        ofPairs process pairs' = config) := by
  intro config
  refine ⟨gather_eq process pairs, fun path => setting_eq_some_iff, setting_eq_none_iff, ?_, ?_,
    runId_ne_empty process pairs, ?_, fun pairs' => ofPairs_reorder process⟩
  · intro value hlast
    simp only [config, ofPairs, setting_eq_some_iff.mpr hlast, Option.map_some, Option.getD_some]
  · intro hnone
    simp only [config, ofPairs, setting_eq_none_iff.mpr hnone, Option.map_none, Option.getD_none]
  · rintro before p after rfl hp
    exact (ofPairs_insert process before after hp).symm

/-- Empty values cancel nothing, and bytes that are no text make a name as they are shown. -/
theorem empty_values_passed_over :
    let process : ProcessId := ⟨"7", by decide⟩
    let pairs := [(Utf8.encode runVariable, [0xFF]), (Utf8.encode logVariable, Utf8.encode "a"),
      (Utf8.encode logVariable, [0xFE]), (Utf8.encode runVariable, []), (Utf8.encode logVariable, [])]
    LastValue logVariable pairs [0xFE] ∧ LastValue runVariable pairs [0xFF] ∧
      (ofPairs process pairs).logPath = some [0xFE] ∧ (ofPairs process pairs).runId = "\uFFFD" := by
  intro process pairs
  have hlog : LastValue logVariable pairs [0xFE] := by
    refine ⟨by decide, pairs.take 2, pairs.drop 3, rfl, ?_⟩
    decide +kernel
  have hrun : LastValue runVariable pairs [0xFF] := by
    refine ⟨by decide, [], pairs.drop 1, rfl, ?_⟩
    decide +kernel
  obtain ⟨-, hpath, -, hname, -⟩ := ofPairs_takes_last process pairs
  refine ⟨hlog, hrun, (hpath _).mpr hlog, (hname _ hrun).trans ?_⟩
  decide +kernel

end Config
end LoaderBench.Host
