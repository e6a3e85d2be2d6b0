import LoaderBench.FileTree.Tree
import LoaderBench.Proofs.Outcome

/-!
# Where paths lead

A walk goes on or fails at each step, but where it goes is told by the names alone: the tree only
decides whether it gets there. So every path has one place to which it leads, if it leads anywhere
(`placeFrom`), and a *trail* of places through which a walk along it comes. What the walk comes to is
decided by what is at the places of the trail.
-/

namespace LoaderBench.FileTree

/-- The place one step on. -/
def go (place : Place) (name : Name) : Place :=
  if name = here then place else if name = above then place.dropLast else place ++ [name]

/-- The places through which a walk comes, the first and the last included. -/
def trailFrom (place : Place) : List Name → List Place
  | [] => [place]
  | name :: names => place :: trailFrom (go place name) names

/-- Whether a place lies below another. -/
def Below (upper place : Place) : Prop := upper <+: place ∧ place ≠ upper

instance (upper place : Place) : Decidable (Below upper place) :=
  inferInstanceAs (Decidable (upper <+: place ∧ place ≠ upper))

/-- A name that stands for itself in every path. -/
structure PlainName (name : Name) : Prop where
  nonempty : name ≠ []
  unparted : separator ∉ name
  absolute : isRelativeName name = false

instance (name : Name) : Decidable (PlainName name) :=
  decidable_of_iff (name ≠ [] ∧ separator ∉ name ∧ isRelativeName name = false)
    ⟨fun h => ⟨h.1, h.2.1, h.2.2⟩, fun h => ⟨h.nonempty, h.unparted, h.absolute⟩⟩

theorem go_plain {name : Name} (h : PlainName name) (place : Place) :
    go place name = place ++ [name] := by
  have hname := h.absolute
  rw [isRelativeName, Bool.or_eq_false_iff, beq_eq_false_iff_ne, beq_eq_false_iff_ne] at hname
  rw [go, if_neg hname.1, if_neg hname.2]

theorem below_append_singleton (place : Place) (name : Name) : Below place (place ++ [name]) := by
  refine ⟨List.prefix_append _ _, fun h => ?_⟩
  have hlength := congrArg List.length h
  rw [List.length_append, List.length_singleton] at hlength
  omega

namespace Path

/-- The place to which a path leads, if it leads anywhere. -/
def placeFrom (directory : Place) (path : Path) : Place :=
  (steps path).foldl go (Tree.origin directory path)

/-- The places through which a walk along a path comes. -/
def trail (directory : Place) (path : Path) : List Place :=
  trailFrom (Tree.origin directory path) (steps path)

/-! ### Parts of paths -/

theorem parts_cons_separator (path : Path) : parts (separator :: path) = [] :: parts path := by
  rw [parts, if_pos rfl]

theorem parts_cons {b : UInt8} (h : b ≠ separator) {path : Path} {p : Name} {ps : List Name}
    (hp : parts path = p :: ps) : parts (b :: path) = (b :: p) :: ps := by
  rw [parts, if_neg h, hp]

theorem parts_ne_nil (path : Path) : parts path ≠ [] := by
  cases path with
  | nil => exact List.cons_ne_nil _ _
  | cons b path =>
    by_cases h : b = separator
    · rw [h, parts_cons_separator]
      exact List.cons_ne_nil _ _
    · cases hp : parts path with
      | nil =>
        rw [parts, if_neg h, hp]
        exact List.cons_ne_nil _ _
      | cons p ps =>
        rw [parts_cons h hp]
        exact List.cons_ne_nil _ _

theorem parts_append (a b : Path) : parts (a ++ separator :: b) = parts a ++ parts b := by
  induction a with
  | nil => exact parts_cons_separator b
  | cons c a ih =>
    by_cases h : c = separator
    · rw [h, List.cons_append, parts_cons_separator, ih, parts_cons_separator, List.cons_append]
    · cases hp : parts a with
      | nil => exact absurd hp (parts_ne_nil a)
      | cons p ps =>
        rw [hp, List.cons_append] at ih
        rw [List.cons_append, parts_cons h ih, parts_cons h hp, List.cons_append]

theorem parts_unparted {name : Name} (h : separator ∉ name) : parts name = [name] := by
  induction name with
  | nil => rfl
  | cons b name ih =>
    have hb : b ≠ separator := fun hb => h (hb ▸ List.mem_cons_self)
    exact parts_cons hb (ih fun hmem => h (List.mem_cons_of_mem _ hmem))

/-! ### A name in a directory -/

theorem not_isAbsolute {name : Name} (h : PlainName name) : isAbsolute name = false := by
  cases name with
  | nil => rfl
  | cons b name =>
    have hb : b ≠ separator := fun hb => h.unparted (hb ▸ List.mem_cons_self)
    simp only [isAbsolute, List.head?_cons, beq_eq_false_iff_ne]
    intro hsome
    exact hb (Option.some.inj hsome)

/-- A path in a directory has the parts that the directory's path steps through, and its name. -/
theorem parts_join {name : Name} (h : PlainName name) (directory : Path) :
    ∃ ps, parts (join directory name) = ps ++ [name] ∧ steps directory = ps.filter (· != []) := by
  have hname := parts_unparted h.unparted
  rw [join, not_isAbsolute h, if_neg Bool.false_ne_true]
  by_cases hnil : directory = []
  · subst hnil
    rw [if_pos (.inl rfl)]
    exact ⟨[], hname, rfl⟩
  · by_cases hopen : endsOpen directory = true
    · have hlast : directory.getLast? = some separator := by simpa [endsOpen] using hopen
      obtain ⟨front, rfl⟩ : ∃ front, directory = front ++ [separator] := by
        obtain ⟨front, hfront⟩ := List.getLast?_eq_some_iff.mp hlast
        exact ⟨front, hfront⟩
      rw [if_pos (.inr hopen)]
      refine ⟨parts front, ?_, ?_⟩
      · rw [List.append_assoc, List.singleton_append, parts_append, hname]
      · have hparts : parts (front ++ [separator]) = parts front ++ [[]] := parts_append front []
        rw [steps, hparts, List.filter_append]
        exact List.append_nil _
    · rw [if_neg (fun hor => hor.elim hnil hopen), parts_append, hname]
      exact ⟨parts directory, rfl, rfl⟩

theorem steps_join {name : Name} (h : PlainName name) (directory : Path) :
    steps (join directory name) = steps directory ++ [name] := by
  obtain ⟨ps, hparts, hsteps⟩ := parts_join h directory
  have hkept : [name].filter (· != []) = [name] := by simp [h.nonempty]
  rw [steps, hparts, hsteps, List.filter_append, hkept]

theorem isAbsolute_append {directory : Path} (h : directory ≠ []) (rest : Path) :
    isAbsolute (directory ++ rest) = isAbsolute directory := by
  cases directory with
  | nil => exact absurd rfl h
  | cons b directory => rfl

theorem isAbsolute_join {name : Name} (h : PlainName name) (directory : Path) :
    isAbsolute (join directory name) = isAbsolute directory := by
  rw [join, not_isAbsolute h, if_neg Bool.false_ne_true]
  by_cases hnil : directory = []
  · rw [if_pos (.inl hnil), hnil]
    exact not_isAbsolute h
  · split
    · exact isAbsolute_append hnil name
    · exact isAbsolute_append hnil _

theorem origin_join {name : Name} (h : PlainName name) (directory : Place) (path : Path) :
    Tree.origin directory (join path name) = Tree.origin directory path := by
  rw [Tree.origin, isAbsolute_join h, Tree.origin]

theorem placeFrom_join {name : Name} (h : PlainName name) (directory : Place) (path : Path) :
    placeFrom directory (join path name) = placeFrom directory path ++ [name] := by
  rw [placeFrom, origin_join h, steps_join h, List.foldl_append, List.foldl_cons, List.foldl_nil,
    go_plain h]
  rfl

theorem fileName?_join {name : Name} (h : PlainName name) (directory : Path) :
    fileName? (join directory name) = some name := by
  obtain ⟨ps, hparts, -⟩ := parts_join h directory
  have hlast : (components (join directory name)).getLast? = some name := by
    have hname := h.absolute
    rw [isRelativeName, Bool.or_eq_false_iff, beq_eq_false_iff_ne] at hname
    have hkept : [name].filter (fun p => p != [] && p != here) = [name] := by
      simp [h.nonempty, hname.1]
    rw [components, hparts]
    cases ps with
    | nil =>
      rw [List.nil_append]
      simp only [h.nonempty, if_false, List.filter_nil, List.append_nil, List.getLast?_singleton]
    | cons p ps =>
      rw [List.cons_append]
      simp only [List.filter_append, hkept, ← List.append_assoc, List.getLast?_concat]
  rw [fileName?, hlast]
  simp only [h.absolute, Bool.false_eq_true, if_false]

/-! ### Trails -/

theorem foldl_go_mem_trailFrom (place : Place) (names : List Name) :
    names.foldl go place ∈ trailFrom place names := by
  induction names generalizing place with
  | nil => exact List.mem_singleton.mpr rfl
  | cons name names ih => exact List.mem_cons_of_mem _ (ih (go place name))

theorem mem_trailFrom_self (place : Place) (names : List Name) : place ∈ trailFrom place names := by
  cases names with
  | nil => exact List.mem_singleton.mpr rfl
  | cons name names => exact List.mem_cons_self

theorem trailFrom_append_subset (place : Place) (a b : List Name) :
    trailFrom place a ⊆ trailFrom place (a ++ b) := by
  induction a generalizing place with
  | nil =>
    intro x hx
    rw [List.mem_singleton.mp hx]
    exact mem_trailFrom_self place b
  | cons name a ih =>
    intro x hx
    rcases List.mem_cons.mp hx with rfl | hx
    · exact mem_trailFrom_self _ _
    · exact List.mem_cons_of_mem _ (ih (go place name) hx)

/-- Dots do not lead on. -/
theorem trailFrom_filter_subset (place : Place) (names : List Name) :
    trailFrom place (names.filter (· != here)) ⊆ trailFrom place names := by
  induction names generalizing place with
  | nil => exact List.Subset.refl _
  | cons name names ih =>
    by_cases h : name = here
    · have hgo : go place name = place := by rw [go, if_pos h]
      have hdrop : (name :: names).filter (· != here) = names.filter (· != here) := by simp [h]
      rw [hdrop, trailFrom, hgo]
      exact List.Subset.trans (ih place) (List.subset_cons_self _ _)
    · have hkeep : (name :: names).filter (· != here) = name :: names.filter (· != here) := by
        simp [h]
      rw [hkeep]
      exact List.cons_subset_cons _ (ih (go place name))

theorem placeFrom_mem_trail (directory : Place) (path : Path) :
    placeFrom directory path ∈ trail directory path := foldl_go_mem_trailFrom _ _

end Path

/-! ### Walks -/

namespace Tree

open LoaderBench.Platform

variable {tree tree' : Tree} {directory place place' : Place} {path : Path}

theorem step_ok {name : Name} (h : tree.step place name = .ok place') :
    place' = go place name ∧ tree.node? place = some .directory := by
  unfold step at h
  split at h
  · cases h
  · cases h
  · rename_i hnode
    refine ⟨?_, hnode⟩
    unfold go
    split at h
    · rename_i hhere
      cases h
      rw [if_pos hhere]
    · rename_i hhere
      rw [if_neg hhere]
      split at h
      · rename_i habove
        cases h
        rw [if_pos habove]
      · rename_i habove
        rw [if_neg habove]
        split at h
        · cases h
        · split at h
          · cases h
          · cases h
            rfl

theorem walk_cons (name : Name) (names : List Name) :
    tree.walk place (name :: names) = tree.step place name >>= fun next => tree.walk next names :=
  List.foldlM_cons

theorem walk_append (a b : List Name) :
    tree.walk place (a ++ b) = tree.walk place a >>= fun next => tree.walk next b :=
  List.foldlM_append

/-- A walk that succeeds comes to the place that the names tell, through directories only. -/
theorem walk_ok {names : List Name} (h : tree.walk place names = .ok place') :
    place' = names.foldl go place ∧
      ∀ x ∈ trailFrom place names, x = place' ∨ tree.node? x = some .directory := by
  induction names generalizing place with
  | nil =>
    cases h
    refine ⟨rfl, fun x hx => .inl (List.mem_singleton.mp hx)⟩
  | cons name names ih =>
    rw [walk_cons] at h
    obtain ⟨next, hstep, hwalk⟩ := ok_of_bind h
    obtain ⟨rfl, hnode⟩ := step_ok hstep
    obtain ⟨hplace, htrail⟩ := ih hwalk
    refine ⟨hplace, fun x hx => ?_⟩
    rcases List.mem_cons.mp hx with rfl | hx
    · exact .inr hnode
    · exact htrail x hx

theorem locate_parts (h : tree.locate directory path = .ok place) :
    checkPath path = .ok () ∧ tree.walk (origin directory path) (Path.steps path) = .ok place := by
  obtain ⟨u, hcheck, h⟩ := ok_of_bind h
  obtain ⟨last, hwalk, h⟩ := ok_of_bind h
  have hlast : last = place := by
    split at h
    · split at h
      · cases h
      · exact Except.ok.inj h
    · exact Except.ok.inj h
  rw [hlast] at hwalk
  exact ⟨hcheck, hwalk⟩

theorem locate_ok (h : tree.locate directory path = .ok place) :
    place = Path.placeFrom directory path ∧
      ∀ x ∈ Path.trail directory path, x = place ∨ tree.node? x = some .directory :=
  walk_ok (locate_parts h).2

theorem lastDirectory_ok (h : tree.lastDirectory directory path = .ok place) :
    place = (Path.steps path).dropLast.foldl go (origin directory path) ∧
      ∀ x ∈ trailFrom (origin directory path) (Path.steps path).dropLast,
        tree.node? x = some .directory := by
  obtain ⟨u, -, h⟩ := ok_of_bind h
  obtain ⟨last, hwalk, h⟩ := ok_of_bind h
  obtain ⟨hlast, htrail⟩ := walk_ok hwalk
  split at h
  · rename_i hnode
    have hsame : last = place := Except.ok.inj h
    rw [hsame] at hlast htrail hnode
    refine ⟨hlast, fun x hx => ?_⟩
    rcases htrail x hx with rfl | hx
    · exact hnode
    · exact hx
  · cases h
  · cases h

theorem node?_lastDirectory (h : tree.lastDirectory directory path = .ok place) :
    tree.node? place = some .directory := by
  obtain ⟨rfl, htrail⟩ := lastDirectory_ok h
  exact htrail _ (Path.foldl_go_mem_trailFrom _ _)

/-- In the directory that the last step of a path is taken from there is room for a node. -/
theorem fits_last (h : tree.lastDirectory directory path = .ok place) {name : Name} {node : Node}
    (hnode : tree.node? (place ++ [name]) = some .directory → node = .directory) :
    tree.Fits (place ++ [name]) node := by
  refine ⟨?_, hnode⟩
  rw [List.dropLast_concat]
  exact node?_lastDirectory h

theorem foldl_go_dropLast {names : List Name} {name : Name} (h : names.getLast? = some name)
    (hname : isRelativeName name = false) (place : Place) :
    names.dropLast.foldl go place ++ [name] = names.foldl go place := by
  obtain ⟨front, rfl⟩ := List.getLast?_eq_some_iff.mp h
  rw [isRelativeName, Bool.or_eq_false_iff, beq_eq_false_iff_ne, beq_eq_false_iff_ne] at hname
  rw [List.dropLast_concat, List.foldl_append, List.foldl_cons, List.foldl_nil, go,
    if_neg hname.1, if_neg hname.2]

theorem placeFrom_of_lastDirectory {name : Name} (h : tree.lastDirectory directory path = .ok place)
    (hlast : (Path.steps path).getLast? = some name) (hname : isRelativeName name = false) :
    place ++ [name] = Path.placeFrom directory path := by
  obtain ⟨rfl, -⟩ := lastDirectory_ok h
  exact foldl_go_dropLast hlast hname _

/-- A file that can be written has a name of its own in a directory that is there. -/
theorem writable_parts (h : tree.writable directory path = .ok place) :
    ∃ parent name, tree.lastDirectory directory path = .ok parent ∧
      (Path.steps path).getLast? = some name ∧ isRelativeName name = false ∧
      Path.endsOpen path = false ∧ name.length ≤ nameLimit ∧ place = parent ++ [name] ∧
      tree.node? place ≠ some .directory := by
  obtain ⟨parent, hparent, hrest⟩ := ok_of_bind h
  split at hrest
  · cases hrest
  · rename_i name hlast
    split at hrest
    · cases hrest
    · rename_i hplain
      split at hrest
      · cases hrest
      · rename_i hlimit
        split at hrest
        · cases hrest
        · rename_i hnode
          obtain rfl := Except.ok.inj hrest
          have hname : isRelativeName name = false :=
            Bool.eq_false_iff.mpr fun hr => hplain (.inl hr)
          have hclosed : Path.endsOpen path = false :=
            Bool.eq_false_iff.mpr fun he => hplain (.inr he)
          exact ⟨parent, name, hparent, hlast, hname, hclosed, Nat.le_of_not_lt hlimit, rfl, hnode⟩

theorem writable_ok (h : tree.writable directory path = .ok place) :
    place = Path.placeFrom directory path ∧ ∀ content, tree.Fits place (.file content) := by
  obtain ⟨parent, name, hparent, hlast, hname, -, -, rfl, hnode⟩ := writable_parts h
  exact ⟨placeFrom_of_lastDirectory hparent hlast hname,
    fun content => fits_last hparent fun hdir => absurd hdir hnode⟩

theorem not_directory_of_writable (h : tree.writable directory path = .ok place) :
    tree.node? place ≠ some .directory := by
  obtain ⟨_, _, -, -, -, -, -, -, hnode⟩ := writable_parts h
  exact hnode

/-! ### Trees that agree on a trail -/

variable {other : Tree}

theorem step_congr {name : Name} (hplace : tree.node? place = other.node? place)
    (hnext : tree.node? (go place name) = other.node? (go place name)) :
    tree.step place name = other.step place name := by
  unfold step
  rw [hplace]
  cases other.node? place with
  | none => rfl
  | some node =>
    cases node with
    | file content => rfl
    | directory =>
      by_cases hhere : name = here
      · simp only [if_pos hhere]
      · by_cases habove : name = above
        · simp only [if_neg hhere, if_pos habove]
        · rw [go, if_neg hhere, if_neg habove] at hnext
          simp only [if_neg hhere, if_neg habove, hnext]

theorem walk_congr {names : List Name}
    (h : ∀ x ∈ trailFrom place names, tree.node? x = other.node? x) :
    tree.walk place names = other.walk place names := by
  induction names generalizing place with
  | nil => rfl
  | cons name names ih =>
    have hplace := h place List.mem_cons_self
    have hnext := h (go place name) (List.mem_cons_of_mem _ (Path.mem_trailFrom_self _ _))
    rw [walk_cons, walk_cons, step_congr hplace hnext]
    cases hstep : other.step place name with
    | error e => rfl
    | ok next =>
      obtain ⟨rfl, -⟩ := step_ok hstep
      exact ih fun x hx => h x (List.mem_cons_of_mem _ hx)

theorem locate_congr (h : ∀ x ∈ Path.trail directory path, tree.node? x = other.node? x) :
    tree.locate directory path = other.locate directory path := by
  unfold locate
  rw [walk_congr h]
  refine bind_congr_ok fun u _ => bind_congr_ok fun place hwalk => ?_
  obtain ⟨hplace, -⟩ := walk_ok hwalk
  have hnode : tree.node? place = other.node? place := by
    rw [hplace]
    exact h _ (Path.placeFrom_mem_trail directory path)
  rw [hnode]

theorem mem_trail_of_dropLast {x : Place}
    (hx : x ∈ trailFrom (origin directory path) (Path.steps path).dropLast) :
    x ∈ Path.trail directory path := by
  cases hlast : (Path.steps path).getLast? with
  | none =>
    have hnil : Path.steps path = [] := List.getLast?_eq_none_iff.mp hlast
    rw [hnil] at hx
    rw [Path.trail, hnil]
    exact hx
  | some name =>
    obtain ⟨front, hfront⟩ := List.getLast?_eq_some_iff.mp hlast
    rw [hfront, List.dropLast_concat] at hx
    rw [Path.trail, hfront]
    exact Path.trailFrom_append_subset _ _ _ hx

theorem lastDirectory_congr
    (h : ∀ x ∈ trailFrom (origin directory path) (Path.steps path).dropLast,
      tree.node? x = other.node? x) :
    tree.lastDirectory directory path = other.lastDirectory directory path := by
  unfold lastDirectory
  rw [walk_congr h]
  refine bind_congr_ok fun u _ => bind_congr_ok fun place hwalk => ?_
  obtain ⟨hplace, -⟩ := walk_ok hwalk
  have hnode : tree.node? place = other.node? place := by
    rw [hplace]
    exact h _ (Path.foldl_go_mem_trailFrom _ _)
  rw [hnode]

/-- Trees that agree on a trail agree on the place where its last name leads. -/
theorem node?_last_congr {name : Name}
    (h : ∀ x ∈ Path.trail directory path, tree.node? x = other.node? x)
    (hplace : other.lastDirectory directory path = .ok place)
    (hlast : (Path.steps path).getLast? = some name) (hname : isRelativeName name ≠ true) :
    tree.node? (place ++ [name]) = other.node? (place ++ [name]) := by
  rw [placeFrom_of_lastDirectory hplace hlast (Bool.eq_false_iff.mpr hname)]
  exact h _ (Path.placeFrom_mem_trail directory path)

theorem writable_congr (h : ∀ x ∈ Path.trail directory path, tree.node? x = other.node? x) :
    tree.writable directory path = other.writable directory path := by
  unfold writable
  rw [lastDirectory_congr fun x hx => h x (mem_trail_of_dropLast hx)]
  refine bind_congr_ok fun parent hparent => ?_
  cases hlast : (Path.steps path).getLast? with
  | none => rfl
  | some name =>
    by_cases hname : isRelativeName name = true
    · simp only [hname, true_or, if_true]
    · simp only [node?_last_congr h hparent hlast hname]

/-! ### A file that has just been written -/

/-- The path to which a file was written leads to the file. -/
theorem locate_of_writable (h : tree.writable directory path = .ok place) {content : Bytes}
    (hself : tree'.node? place = some (.file content))
    (hother : ∀ x, x ≠ place → tree'.node? x = tree.node? x) :
    tree'.locate directory path = .ok place := by
  obtain ⟨parent, name, hparent, hlast, hname, hclosed, hlimit, rfl, hnode⟩ := writable_parts h
  obtain ⟨hplace, htrail⟩ := lastDirectory_ok hparent
  obtain ⟨u, hcheck, hdirectory⟩ := ok_of_bind hparent
  obtain ⟨last, hwalk, -⟩ := ok_of_bind hdirectory
  obtain ⟨hfront, -⟩ := walk_ok hwalk
  obtain rfl : last = parent := hfront.trans hplace.symm
  obtain ⟨front, hsteps⟩ := List.getLast?_eq_some_iff.mp hlast
  rw [hsteps, List.dropLast_concat] at htrail hwalk hfront
  -- Only the last place is new, and the walk up to it comes through directories.
  have hsame : ∀ x ∈ trailFrom (origin directory path) front, tree'.node? x = tree.node? x := by
    intro x hx
    refine hother x fun hx' => hnode ?_
    rw [← hx']
    exact htrail x hx
  have hlastNode : tree'.node? last = some .directory := by
    rw [hother last fun heq => hnode (heq ▸ node?_lastDirectory hparent)]
    exact node?_lastDirectory hparent
  rw [isRelativeName, Bool.or_eq_false_iff, beq_eq_false_iff_ne, beq_eq_false_iff_ne] at hname
  have hstep : tree'.step last name = .ok (last ++ [name]) := by
    simp only [step, hlastNode, if_neg hname.1, if_neg hname.2, if_neg (Nat.not_lt.mpr hlimit),
      hself]
  have hwhole : tree'.walk (origin directory path) (Path.steps path) = .ok (last ++ [name]) := by
    rw [hsteps, walk_append, walk_congr hsame, hwalk]
    show tree'.walk last [name] = _
    rw [walk_cons, hstep]
    rfl
  simp only [locate, hcheck, hwhole, bind, Except.bind, hself, hclosed, Bool.false_eq_true, if_false]

end Tree
end LoaderBench.FileTree
