import LoaderBench.Proofs.FileTree.Change

/-!
# The last name of a path

A path that ends with a name is called by it. A path that does not (an empty one, one of slashes only,
one whose last step is a dot or two) leads to a directory or nowhere, so whatever file a path leads to
has a name. Two dots lead to a directory because whatever is in a tree stands in one.
-/

namespace LoaderBench.FileTree

open LoaderBench.Platform

namespace Path

variable {path : Path} {name : Name}

theorem isAbsolute_of_steps_nil (h : steps path = []) (hne : path ≠ []) : isAbsolute path = true := by
  cases path with
  | nil => exact absurd rfl hne
  | cons b path =>
    by_cases hb : b = separator
    · rw [isAbsolute, List.head?_cons, hb]
      rfl
    · obtain ⟨p, ps, hp⟩ := List.exists_cons_of_ne_nil (parts_ne_nil path)
      rw [steps, parts_cons hb hp] at h
      cases h

/-- Dropping what is not asked for keeps a last element that is. -/
theorem getLast?_append_filter (keep : Name → Bool) (hkeep : keep name = true)
    {front rest : List Name} (h : (front ++ rest).getLast? = some name) :
    (front ++ rest.filter keep).getLast? = some name := by
  rcases List.eq_nil_or_concat rest with rfl | ⟨rest, last, rfl⟩
  · exact h
  · rw [List.concat_eq_append, ← List.append_assoc, List.getLast?_concat] at h
    obtain rfl := Option.some.inj h
    rw [List.concat_eq_append, List.filter_append, List.filter_cons_of_pos hkeep, List.filter_nil,
      ← List.append_assoc, List.getLast?_concat]

/-- A path that ends with a name is called by it. -/
theorem fileName?_of_last (h : (steps path).getLast? = some name)
    (hname : isRelativeName name = false) : fileName? path = some name := by
  have hhere : (name != here) = true := by
    rw [isRelativeName, Bool.or_eq_false_iff] at hname
    rw [bne, hname.1]
    rfl
  have hlast : (components path).getLast? = some name := by
    obtain ⟨first, rest, hparts⟩ := List.exists_cons_of_ne_nil (parts_ne_nil path)
    have hsteps : steps path = (if first = [] then [] else [first]) ++ rest.filter (· != []) := by
      rw [steps, hparts, List.filter_cons]
      by_cases hfirst : first = [] <;> simp [hfirst]
    rw [hsteps] at h
    have hdropped := getLast?_append_filter (· != here) hhere h
    rw [List.filter_filter] at hdropped
    rw [components, hparts]
    simpa only [Bool.and_comm] using hdropped
  rw [fileName?, hlast]
  dsimp only
  rw [hname]
  rfl

end Path

namespace Tree

variable {tree : Tree} {directory place place' : Place} {path : Path} {name : Name}

theorem step_relative (h : tree.step place name = .ok place') (hname : isRelativeName name = true) :
    tree.node? place' = some .directory := by
  obtain ⟨rfl, hdir⟩ := step_ok h
  by_cases hhere : name = here
  · rw [go, if_pos hhere]
    exact hdir
  · have hup : name = above := by simpa [isRelativeName, hhere] using hname
    rw [go, if_neg hhere, if_pos hup]
    exact node?_dropLast hdir

/-- A walk whose last step is taken by position ends at a directory. -/
theorem walk_relative {names : List Name} (h : tree.walk place names = .ok place')
    (hlast : names.getLast? = some name) (hname : isRelativeName name = true) :
    tree.node? place' = some .directory := by
  obtain ⟨front, rfl⟩ := List.getLast?_eq_some_iff.mp hlast
  rw [walk_append] at h
  obtain ⟨mid, -, h⟩ := ok_of_bind h
  rw [walk_cons] at h
  obtain ⟨next, hstep, hend⟩ := ok_of_bind h
  cases hend
  exact step_relative hstep hname

/-- The file to which a path leads is called by the last step of the path. -/
theorem fileName?_of_locate (hlocate : tree.locate directory path = .ok place) {content : Bytes}
    (hfile : tree.file? place = some content) :
    ∃ name, (Path.steps path).getLast? = some name ∧ Path.fileName? path = some name := by
  have hnode := node?_of_file? hfile
  obtain ⟨hcheck, hwalk⟩ := locate_parts hlocate
  have hne : path ≠ [] := by
    rintro rfl
    cases hcheck
  cases hlast : (Path.steps path).getLast? with
  | none =>
    have hnil := List.getLast?_eq_none_iff.mp hlast
    rw [hnil, origin, if_pos (Path.isAbsolute_of_steps_nil hnil hne)] at hwalk
    cases hwalk
    cases hnode
  | some name =>
    cases hname : isRelativeName name with
    | true =>
      rw [walk_relative hwalk hlast hname] at hnode
      cases hnode
    | false => exact ⟨name, rfl, Path.fileName?_of_last hlast hname⟩

end Tree
end LoaderBench.FileTree
