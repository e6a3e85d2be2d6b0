import LoaderBench.Proofs.FileTree.Change

/-!
# Trees that agree

Two trees agree on some places if the same is at each of them. What is done along a path whose trail
lies among these places comes out alike in both trees, and leaves them in agreement. Planting a file
also walks the shorter paths above it, and their trails are part of its own.
-/

namespace LoaderBench.FileTree

open LoaderBench.Platform

/-! ### Shorter paths -/

namespace Path

variable {path : Path}

theorem unparted_of_mem_parts {name : Name} (h : name ∈ parts path) : separator ∉ name := by
  induction path generalizing name with
  | nil =>
    rw [parts, List.mem_singleton] at h
    rw [h]
    exact List.not_mem_nil
  | cons b path ih =>
    by_cases hb : b = separator
    · rw [hb, parts_cons_separator] at h
      rcases List.mem_cons.mp h with rfl | h
      · exact List.not_mem_nil
      · exact ih h
    · cases hp : parts path with
      | nil => exact absurd hp (parts_ne_nil path)
      | cons p ps =>
        rw [hp] at ih
        rw [parts_cons hb hp] at h
        rcases List.mem_cons.mp h with rfl | h
        · intro hmem
          rcases List.mem_cons.mp hmem with hsep | hmem
          · exact hb hsep.symm
          · exact ih List.mem_cons_self hmem
        · exact ih (List.mem_cons_of_mem _ h)

theorem mem_components {name : Name} (h : name ∈ components path) :
    name ≠ [] ∧ separator ∉ name := by
  unfold components at h
  cases hp : parts path with
  | nil => exact absurd hp (parts_ne_nil path)
  | cons first rest =>
    have hall : ∀ p ∈ first :: rest, separator ∉ p := fun p hp' =>
      unparted_of_mem_parts (hp ▸ hp')
    rw [hp] at h
    dsimp only at h
    rcases List.mem_append.mp h with h | h
    · split at h
      · exact absurd h List.not_mem_nil
      · rename_i hfirst
        rw [List.mem_singleton.mp h]
        exact ⟨hfirst, hall first List.mem_cons_self⟩
    · obtain ⟨hmem, hkept⟩ := List.mem_filter.mp h
      rw [Bool.and_eq_true, bne_iff_ne] at hkept
      exact ⟨hkept.1, hall name (List.mem_cons_of_mem _ hmem)⟩

theorem parts_intercalate {names : List Name} (hne : names ≠ [])
    (h : ∀ name ∈ names, separator ∉ name) : parts ([separator].intercalate names) = names := by
  induction names with
  | nil => exact absurd rfl hne
  | cons name names ih =>
    have hname := parts_unparted (h name List.mem_cons_self)
    cases names with
    | nil =>
      have hone : [separator].intercalate [name] = name := by simp [List.intercalate]
      rw [hone, hname]
    | cons next names =>
      have hrest := ih (List.cons_ne_nil _ _) fun n hn => h n (List.mem_cons_of_mem _ hn)
      have hsplit : [separator].intercalate (name :: next :: names) =
          name ++ separator :: [separator].intercalate (next :: names) := by
        simp [List.intercalate]
      rw [hsplit, parts_append, hname, hrest, List.singleton_append]

/-- The path of some names leads from name to name. -/
theorem ofComponents_names {names : List Name} (hne : names ≠ [])
    (h : ∀ name ∈ names, name ≠ [] ∧ separator ∉ name) (absolute : Bool) :
    steps (ofComponents absolute names) = names ∧
      isAbsolute (ofComponents absolute names) = absolute := by
  have hparts := parts_intercalate hne fun name hname => (h name hname).2
  have hkept : names.filter (· != []) = names :=
    List.filter_eq_self.mpr fun name hname => bne_iff_ne.mpr (h name hname).1
  cases absolute with
  | true =>
    have hpath : ofComponents true names = separator :: [separator].intercalate names := rfl
    rw [hpath, steps, parts_cons_separator, hparts]
    exact ⟨hkept, rfl⟩
  | false =>
    have hpath : ofComponents false names = [separator].intercalate names := rfl
    rw [hpath, steps, hparts]
    refine ⟨hkept, ?_⟩
    cases hrest : [separator].intercalate names with
    | nil => rfl
    | cons b rest =>
      have hb : b ≠ separator := by
        intro hb
        rw [hrest, hb, parts_cons_separator] at hparts
        exact (h [] (hparts ▸ List.mem_cons_self)).1 rfl
      simp only [isAbsolute, List.head?_cons, beq_eq_false_iff_ne]
      exact fun hsome => hb (Option.some.inj hsome)

theorem trailFrom_components_subset (place : Place) (path : Path) :
    trailFrom place (components path) ⊆ trailFrom place (steps path) := by
  unfold components steps
  cases hp : parts path with
  | nil => exact absurd hp (parts_ne_nil path)
  | cons first rest =>
    have hrest : rest.filter (fun p => p != [] && p != here) =
        (rest.filter (· != [])).filter (· != here) := by
      rw [List.filter_filter]
      exact List.filter_congr fun p _ => Bool.and_comm _ _
    dsimp only
    rw [hrest]
    by_cases hfirst : first = []
    · rw [if_pos hfirst, List.nil_append, List.filter_cons_of_neg (by simp [hfirst])]
      exact trailFrom_filter_subset _ _
    · rw [if_neg hfirst, List.singleton_append, List.filter_cons_of_pos (by simp [hfirst])]
      exact List.cons_subset_cons _ (trailFrom_filter_subset _ _)

/-- A walk along a shorter path comes through places of the walk along the whole. -/
theorem trail_of_mem_ancestors {shorter : Path} (h : shorter ∈ ancestors path) (directory : Place) :
    trail directory shorter ⊆ trail directory path := by
  unfold ancestors at h
  dsimp only at h
  split at h
  · exact absurd h List.not_mem_nil
  · rcases List.mem_cons.mp h with rfl | h
    · exact List.Subset.refl _
    · obtain ⟨n, hn, rfl⟩ := List.mem_map.mp h
      have hpos : 0 < n := of_decide_eq_true (List.mem_filter.mp hn).2
      have hlt : n < (components path).length :=
        List.mem_range.mp (List.mem_reverse.mp (List.mem_filter.mp hn).1)
      have hne : (components path).take n ≠ [] := by
        intro hnil
        have hlength := congrArg List.length hnil
        rw [List.length_take, List.length_nil] at hlength
        omega
      obtain ⟨hsteps, habsolute⟩ := ofComponents_names hne
        (fun name hname => mem_components (List.mem_of_mem_take hname)) (isAbsolute path)
      rw [trail, hsteps, Tree.origin, habsolute, trail, Tree.origin]
      refine List.Subset.trans ?_ (trailFrom_components_subset _ path)
      have hsplit := trailFrom_append_subset
        (if isAbsolute path = true then [] else directory) ((components path).take n)
        ((components path).drop n)
      rwa [List.take_append_drop] at hsplit

theorem components_nil : components [] = [] := by decide

theorem steps_append (front last : Path) :
    steps (front ++ separator :: last) = steps (front ++ [separator]) ++ steps last := by
  have hfront : steps (front ++ [separator]) = (parts front).filter (· != []) := by
    have hparts : parts (front ++ [separator]) = parts front ++ [[]] := parts_append front []
    rw [steps, hparts, List.filter_append]
    exact List.append_nil _
  rw [hfront, steps, parts_append, List.filter_append]
  rfl

/-- What stands before the last name is nothing, or leads along the path. -/
theorem trail_directoryPart (directory : Place) (path : Path) :
    directoryPart path = [] ∨ trail directory (directoryPart path) ⊆ trail directory path := by
  have hsplit : path = directoryPart path ++ (path.reverse.takeWhile (· != separator)).reverse := by
    rw [directoryPart, ← List.reverse_append, List.takeWhile_append_dropWhile, List.reverse_reverse]
  cases hrest : path.reverse.dropWhile (· != separator) with
  | nil =>
    refine .inl ?_
    rw [directoryPart, hrest, List.reverse_nil]
  | cons b rest =>
    have hb : b = separator := by
      have hhead := List.head?_dropWhile_not (· != separator) path.reverse
      rw [hrest] at hhead
      simpa using hhead
    have hpart : directoryPart path = rest.reverse ++ [separator] := by
      rw [directoryPart, hrest, hb, List.reverse_cons]
    refine .inr ?_
    generalize (path.reverse.takeWhile (· != separator)).reverse = last at hsplit
    rw [hpart] at hsplit ⊢
    have hwhole : steps path = steps (rest.reverse ++ [separator]) ++ steps last := by
      rw [hsplit, List.append_assoc, List.singleton_append, steps_append]
    have horigin : Tree.origin directory (rest.reverse ++ [separator]) =
        Tree.origin directory path := by
      have hne : rest.reverse ++ [separator] ≠ [] := by simp
      rw [Tree.origin, hsplit, Tree.origin, isAbsolute_append hne]
    rw [trail, trail, hwhole, horigin]
    exact trailFrom_append_subset _ _ _

theorem trail_of_mem_above {shorter : Path} (h : shorter ∈ ancestors (directoryPart path))
    (directory : Place) : trail directory shorter ⊆ trail directory path := by
  rcases trail_directoryPart directory path with hnil | hsubset
  · rw [hnil, ancestors, components_nil] at h
    exact absurd h List.not_mem_nil
  · exact List.Subset.trans (trail_of_mem_ancestors h directory) hsubset

theorem mem_trailFrom_here {names : List Name} (h : ∀ name ∈ names, name = here) {place x : Place}
    (hx : x ∈ trailFrom place names) : x = place := by
  induction names generalizing place with
  | nil => exact List.mem_singleton.mp hx
  | cons name names ih =>
    have hgo : go place name = place := by rw [go, if_pos (h name List.mem_cons_self)]
    rcases List.mem_cons.mp hx with hx | hx
    · exact hx
    · rw [hgo] at hx
      exact ih (fun n hn => h n (List.mem_cons_of_mem _ hn)) hx

/-- A path without components leads nowhere else than where walks along it start. -/
theorem mem_trail_of_no_components (h : components path = []) {directory x : Place}
    (hx : x ∈ trail directory path) : x = Tree.origin directory path := by
  refine mem_trailFrom_here (fun name hname => ?_) hx
  rw [steps, List.mem_filter] at hname
  unfold components at h
  cases hp : parts path with
  | nil => exact absurd hp (parts_ne_nil path)
  | cons first rest =>
    rw [hp] at h hname
    dsimp only at h
    obtain ⟨hfirst, hrest⟩ := List.append_eq_nil_iff.mp h
    have hnone : first = [] := by
      by_cases hf : first = []
      · exact hf
      · rw [if_neg hf] at hfirst
        exact absurd hfirst (List.cons_ne_nil _ _)
    rcases List.mem_cons.mp hname.1 with rfl | hmem
    · rw [hnone] at hname
      exact absurd hname.2 (by decide)
    · have hdropped := List.filter_eq_nil_iff.mp hrest name hmem
      rw [hname.2, Bool.true_and, bne_iff_ne] at hdropped
      exact Decidable.not_not.mp hdropped

end Path

/-! ### Agreement -/

namespace Tree

variable {tree other mid : Tree} {places : Place → Prop} {directory place : Place} {path : Path}

/-- The same is at each of some places in two trees. -/
def Agree (places : Place → Prop) (tree other : Tree) : Prop :=
  ∀ place, places place → tree.node? place = other.node? place

theorem Agree.file? (h : Agree places tree other) (hplace : places place) :
    tree.file? place = other.file? place :=
  file?_of_node? (h place hplace)

theorem Agree.set (h : Agree places tree other) {node : Node} (hfits : tree.Fits place node)
    (hfits' : other.Fits place node) :
    Agree places (tree.set place node) (other.set place node) := by
  intro x hx
  by_cases hplace : x = place
  · rw [hplace, node?_set_self hfits, node?_set_self hfits']
  · rw [node?_set_other tree node hplace, node?_set_other other node hplace]
    exact h x hx

theorem vacant_congr (h : ∀ x ∈ Path.trail directory path, tree.node? x = other.node? x) :
    tree.vacant directory path = other.vacant directory path := by
  unfold vacant
  rw [lastDirectory_congr fun x hx => h x (mem_trail_of_dropLast hx)]
  refine bind_congr_ok fun parent hparent => ?_
  cases hlast : (Path.steps path).getLast? with
  | none => rfl
  | some name =>
    by_cases hname : isRelativeName name = true
    · simp only [hname, if_true]
    · simp only [node?_last_congr h hparent hlast hname]

theorem isDirectoryAt_congr (h : ∀ x ∈ Path.trail directory path, tree.node? x = other.node? x) :
    tree.isDirectoryAt directory path = other.isDirectoryAt directory path := by
  unfold isDirectoryAt
  rw [locate_congr h]
  cases hlocate : other.locate directory path with
  | error e => rfl
  | ok place =>
    obtain ⟨rfl, -⟩ := locate_ok hlocate
    simp only [h _ (Path.placeFrom_mem_trail directory path)]

/-- A directory is created in two trees, or in neither and for the same reason. -/
theorem Agree.makeDirectory (h : Agree places tree other)
    (hpath : ∀ x ∈ Path.trail directory path, places x) :
    (∃ e, tree.makeDirectory directory path = .error e ∧
        other.makeDirectory directory path = .error e) ∨
      ∃ tree' other', tree.makeDirectory directory path = .ok tree' ∧
        other.makeDirectory directory path = .ok other' ∧ Agree places tree' other' := by
  have hsame : tree.vacant directory path = other.vacant directory path :=
    vacant_congr fun x hx => h x (hpath x hx)
  rw [makeDirectory_eq, makeDirectory_eq]
  cases hvacant : other.vacant directory path with
  | error e =>
    rw [hsame, hvacant]
    exact .inl ⟨e, rfl, rfl⟩
  | ok place =>
    rw [hvacant] at hsame
    obtain ⟨-, -, hfits, -⟩ := vacant_ok hsame
    obtain ⟨-, -, hfits', -⟩ := vacant_ok hvacant
    rw [hsame]
    exact .inr ⟨_, _, rfl, rfl, h.set hfits hfits'⟩

/-- A chain of directories comes out alike. -/
theorem Agree.makeChain {paths : List Path} (h : Agree places tree other)
    (hpaths : ∀ a ∈ paths, ∀ x ∈ Path.trail directory a, places x) :
    (tree.makeChain directory paths).1 = (other.makeChain directory paths).1 ∧
      Agree places (tree.makeChain directory paths).2 (other.makeChain directory paths).2 := by
  induction paths with
  | nil => exact ⟨rfl, h⟩
  | cons path longer ih =>
    have hpath := hpaths path List.mem_cons_self
    have hthere {t o : Tree} (hagree : Agree places t o) :
        t.isDirectoryAt directory path = o.isDirectoryAt directory path :=
      isDirectoryAt_congr fun x hx => hagree x (hpath x hx)
    rcases h.makeDirectory hpath with ⟨e, hfirst, hfirst'⟩ | ⟨t, o, hfirst, hfirst', hagree⟩
    · by_cases hmissing : e = .os notFound
      · -- The directories above come next in the list, then the path is tried once more.
        obtain ⟨hresult, hrest⟩ := ih fun a ha => hpaths a (List.mem_cons_of_mem _ ha)
        cases hchain : tree.makeChain directory longer with
        | mk result t =>
          cases hchain' : other.makeChain directory longer with
          | mk result' o =>
            rw [hchain, hchain'] at hresult hrest
            obtain rfl : result = result' := hresult
            cases result with
            | error e' =>
              simp only [Tree.makeChain, hfirst, hfirst', if_pos hmissing, hchain, hchain', true_and]
              exact hrest
            | ok u =>
              rcases Agree.makeDirectory hrest hpath with
                ⟨e', hagain, hagain'⟩ | ⟨t', o', hagain, hagain', hagree⟩
              · simp only [Tree.makeChain, hfirst, hfirst', if_pos hmissing, hchain, hchain', hagain,
                  hagain', hthere hrest]
                split
                · exact ⟨rfl, hrest⟩
                · exact ⟨rfl, hrest⟩
              · simp only [Tree.makeChain, hfirst, hfirst', if_pos hmissing, hchain, hchain', hagain,
                  hagain', true_and]
                exact hagree
      · simp only [Tree.makeChain, hfirst, hfirst', if_neg hmissing, hthere h]
        split
        · exact ⟨rfl, h⟩
        · exact ⟨rfl, h⟩
    · simp only [Tree.makeChain, hfirst, hfirst', true_and]
      exact hagree

/-- Planting a file leaves trees in agreement if they agree along its path. -/
theorem Agree.plant (h : Agree places tree other)
    (hpath : ∀ x ∈ Path.trail directory path, places x) (content : Bytes) :
    Agree places (tree.plant directory path content) (other.plant directory path content) := by
  have hgrown : Agree places (tree.grow directory (Path.directoryPart path))
      (other.grow directory (Path.directoryPart path)) :=
    (h.makeChain fun a ha x hx => hpath x (Path.trail_of_mem_above ha directory hx)).2
  have hplace : (tree.grow directory (Path.directoryPart path)).writable directory path =
      (other.grow directory (Path.directoryPart path)).writable directory path :=
    writable_congr fun x hx => hgrown x (hpath x hx)
  unfold Tree.plant Tree.write
  dsimp only
  cases hwritable : (other.grow directory (Path.directoryPart path)).writable directory path with
  | error e =>
    rw [hplace, hwritable]
    exact hgrown
  | ok place =>
    rw [hwritable] at hplace
    obtain ⟨-, hfits⟩ := writable_ok hplace
    obtain ⟨-, hfits'⟩ := writable_ok hwritable
    rw [hplace]
    exact hgrown.set (hfits content) (hfits' content)

end Tree
end LoaderBench.FileTree
