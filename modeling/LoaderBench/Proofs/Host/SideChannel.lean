import LoaderBench.Host.Program
import LoaderBench.Proofs.Host.History

/-!
# The log is a side channel

Two hosts over copies of one loader give the same answer to the same call: the same exit, the same
text, the same loader calls. Their logs may be of any kind and in any state, and they may have any
history. The invariant that carries a history is that both loaders stay copies of each other, but for
number, message and trace; an answer reads none of the three.
-/

namespace LoaderBench.Host

open LoaderBench.FileTree LoaderBench.Loader LoaderBench.Log LoaderBench.Time

/-! ### Courses read the loader alone -/

theorem Course.copy {target : Target} {m m' : Machine} {outcome : Except Error Completed}
    {calls : List Event} (same : m.SameLoader m') (hc : Course target m outcome calls) :
    Course target m' outcome calls := by
  cases hc with
  | empty hn => exact .empty hn
  | nul h0 => exact .nul h0
  | absent hn hi =>
    rw [same.image?_eq] at hi
    rw [same.failureOf_eq, same.openMishap]
    exact .absent hn hi
  | unresolved image hn hi hs =>
    rw [same.image?_eq] at hi
    rw [same.failureOf_eq]
    exact .unresolved image hn hi hs
  | nullPointer image hn hi hs =>
    rw [same.image?_eq] at hi
    rw [same.failureOf_eq]
    exact .nullPointer image hn hi hs
  | completed image fixtureId hn hi hs =>
    rw [same.image?_eq] at hi
    have hr : releaseFailure m image = releaseFailure m' image := by
      simp only [releaseFailure, same.failureOf_eq]
    rw [hr]
    exact .completed image fixtureId hn hi hs

/-- The conditions of two courses exclude each other, so that a loader allows one course only. -/
theorem Course.unique {target : Target} {m : Machine} {outcome outcome' : Except Error Completed}
    {calls calls' : List Event} (hc : Course target m outcome calls)
    (hc' : Course target m outcome' calls') : outcome = outcome' ∧ calls = calls' := by
  -- Two different courses ask opposite things of the target or the symbol; one course gives one answer.
  cases hc <;> cases hc' <;> simp_all [Nameable, -List.lookup_eq_none_iff]

theorem Call.Course.unique {call : Call} {m m' : Machine} {outcome outcome' : Except Error Completed}
    {calls calls' : List Event} (same : m'.SameLoader m) (hc : call.Course m outcome calls)
    (hc' : call.Course m' outcome' calls') : outcome = outcome' ∧ calls = calls' := by
  cases hc with
  | execute hc =>
    cases hc' with
    | execute hc' => exact hc.unique (hc'.copy same)
  | fail error =>
    cases hc'
    exact ⟨rfl, rfl⟩

/-! ### Hosts with any log -/

theorem machine_prepare (name : String) (config : Config) (m : Machine) (tree : Tree)
    (directory : Place) : (prepare name config m tree directory).session.machine = m := by
  simp only [prepare]
  split
  · rfl
  · split <;> rfl

/-- A course that the loader allows decides the answer of every host over a copy of it. -/
theorem answers_of_copy {m : Machine} {call : Call} {outcome : Except Error Completed}
    {calls : List Event} (hc : call.Course m outcome calls) (s : Session)
    (same : s.machine.SameLoader m) (earlier : List (Moment × Call)) (now : Moment) :
    (s.performAll earlier).Answers now call ⟨exitOf outcome, lineOf outcome ++ "\n", calls⟩ := by
  obtain ⟨outcome', calls', hc', ha⟩ := (s.performAll earlier).answers_of_course now call
  have hsame := (s.sameLoader_performAll earlier).trans same
  obtain ⟨rfl, rfl⟩ := hc.unique hsame hc'
  exact ha

/-- A call has one answer for all hosts over copies of a loader, whatever their logs and their
histories. A host that does nothing else and does not log gives it, and so does a host whose log is
opened where settings say, or cannot be opened there. -/
theorem answer_independent_of_log (m : Machine) (call : Call) :
    ∃ answer : Answer,
      (∀ (s : Session) (earlier : List (Moment × Call)) (now : Moment),
        s.machine.SameLoader m → (s.performAll earlier).Answers now call answer) ∧
      (∀ (name : String) (now : Moment),
        (Session.new name (.disabled name) m).Answers now call answer) ∧
      (∀ (name : String) (config : Config) (tree : Tree) (directory : Place)
        (earlier : List (Moment × Call)) (now : Moment),
        ((prepare name config m tree directory).session.performAll earlier).Answers now call
          answer) := by
  -- The course is taken at a host without a log; every other host is compared with it.
  obtain ⟨outcome, calls, hc⟩ : ∃ outcome calls, call.Course m outcome calls := by
    obtain ⟨calls, -, hc⟩ := (Session.new "" (.disabled "") m).course_of_call call
    exact ⟨_, calls, hc⟩
  refine ⟨⟨exitOf outcome, lineOf outcome ++ "\n", calls⟩, ?_, ?_, ?_⟩
  · intro s earlier now same
    exact answers_of_copy hc s same earlier now
  · intro name now
    exact answers_of_copy hc (Session.new name (.disabled name) m) (Machine.SameLoader.refl m) [] now
  · intro name config tree directory earlier now
    refine answers_of_copy hc _ ?_ earlier now
    rw [machine_prepare]
    exact Machine.SameLoader.refl m

/-- A host whose log is full and cannot be flushed, after two calls and with a message pending, answers
like a host that starts without a log. -/
theorem answer_of_full_log :
    let images : List Image := [⟨[97], [([98], none)], .silent, 1, ⟨some 5, some [99]⟩⟩]
    let loader := Machine.initial images ⟨some 2, none⟩ 4 none
    let used : Machine := ⟨images, ⟨some 2, none⟩, 4, 7, some [100], [.dlclose [97]]⟩
    let full := Medium.bounded (some 3) (.fails "full") (some "flush")
    let host := Session.new "host" (.toSink (.new full) "host" "run") used
    let earlier : List (Moment × Call) := [(⟨0, 0⟩, .fail .usage), (⟨1, 0⟩, .execute (.name [97]))]
    let call := Call.execute (.fullPath [97])
    host.machine.SameLoader loader ∧
      ∃ answer : Answer, (host.performAll earlier).Answers ⟨2, 0⟩ call answer ∧
        (Session.new "host" (.disabled "host") loader).Answers ⟨3, 0⟩ call answer := by
  intro images loader used full host earlier call
  have same : host.machine.SameLoader loader := ⟨rfl, rfl, rfl⟩
  obtain ⟨answer, hany, hfresh, -⟩ := answer_independent_of_log loader call
  exact ⟨same, answer, hany host earlier ⟨2, 0⟩ same, hfresh "host" ⟨3, 0⟩⟩

end LoaderBench.Host
