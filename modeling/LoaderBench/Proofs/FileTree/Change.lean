import LoaderBench.Proofs.FileTree.Route

/-!
# What changes in a tree

Writing and copying change one place, the one to which the path leads; the file copied is as it was,
unless it is copied onto itself. Creating directories puts directories where nothing was, and touches
no file.
-/

namespace LoaderBench.FileTree

open LoaderBench.Platform

namespace Tree

variable {tree tree' : Tree} {directory place : Place} {path : Path}

/-! ### Files -/

/-- The content of the file at a place, if there is one. -/
def file? (tree : Tree) (place : Place) : Option Bytes :=
  match tree.node? place with
  | some (.file content) => some content
  | _ => none

theorem file?_of_node? {other : Tree} (h : tree.node? place = other.node? place) :
    tree.file? place = other.file? place := by
  rw [file?, h, file?]

theorem node?_of_file? {content : Bytes} (h : tree.file? place = some content) :
    tree.node? place = some (.file content) := by
  unfold file? at h
  split at h
  · cases h
    assumption
  · cases h

theorem contentAt_ok {content : Bytes} (h : tree.contentAt place = .ok content) :
    tree.file? place = some content := by
  unfold contentAt at h
  split at h
  · rename_i hnode
    cases h
    rw [file?, hnode]
  · cases h
  · cases h

theorem contentAt_of_file? {content : Bytes} (h : tree.file? place = some content) :
    tree.contentAt place = .ok content := by
  rw [contentAt, node?_of_file? h]

theorem bytesAt_eq (tree : Tree) (place : Place) :
    tree.bytesAt place = (tree.file? place).getD [] := by
  unfold bytesAt file?
  cases tree.node? place with
  | none => rfl
  | some node => cases node <;> rfl

theorem file?_set_self {content : Bytes} (h : tree.Fits place (.file content)) :
    (tree.set place (.file content)).file? place = some content := by
  rw [file?, node?_set_self h]

theorem file?_set_other (node : Node) {other : Place} (h : other ≠ place) :
    (tree.set place node).file? other = tree.file? other :=
  file?_of_node? (node?_set_other tree node h)

/-! ### Writing and copying -/

theorem write_ok {content : Bytes} (h : tree.write directory path content = .ok tree') :
    tree' = tree.set (Path.placeFrom directory path) (.file content) ∧
      tree.Fits (Path.placeFrom directory path) (.file content) := by
  obtain ⟨place, hplace, h⟩ := ok_of_bind h
  obtain ⟨rfl, hfits⟩ := writable_ok hplace
  exact ⟨(Except.ok.inj h).symm, hfits content⟩

/-- A path leads to the file that was written to it. -/
theorem contentAt_of_writable (h : tree.writable directory path = .ok place) (content : Bytes) :
    (tree.set place (.file content)).locate directory path = .ok place ∧
      (tree.set place (.file content)).contentAt place = .ok content := by
  obtain ⟨-, hfits⟩ := writable_ok h
  have hself := node?_set_self (hfits content)
  have hother (x : Place) (hx : x ≠ place) := node?_set_other tree (.file content) hx
  exact ⟨locate_of_writable h hself hother, contentAt_of_file? (file?_set_self (hfits content))⟩

/-- No place changes but the one to which a file is copied. -/
theorem node?_copy {source target : Path} (h : tree.copy directory source target = .ok tree')
    (hne : place ≠ Path.placeFrom directory target) : tree'.node? place = tree.node? place := by
  obtain ⟨sourcePlace, -, hopen⟩ := ok_of_bind h
  obtain ⟨targetPlace, htarget, hread⟩ := ok_of_bind hopen
  obtain ⟨content, -, hset⟩ := ok_of_bind hread
  obtain ⟨rfl, -⟩ := writable_ok htarget
  rw [← Except.ok.inj hset, node?_set_other _ _ hne, node?_set_other _ _ hne]

/-- A copy has the content of the file copied and is found where it was put, and no other place
changes. -/
theorem copy_ok {source target : Path} (h : tree.copy directory source target = .ok tree')
    (hne : Path.placeFrom directory source ≠ Path.placeFrom directory target) :
    ∃ content, tree.file? (Path.placeFrom directory source) = some content ∧
      tree'.file? (Path.placeFrom directory target) = some content ∧
      tree'.locate directory target = .ok (Path.placeFrom directory target) ∧
      ∀ other, other ≠ Path.placeFrom directory target → tree'.node? other = tree.node? other := by
  obtain ⟨sourcePlace, hsource, hopen⟩ := ok_of_bind h
  obtain ⟨targetPlace, htarget, hread⟩ := ok_of_bind hopen
  obtain ⟨content, hcontent, hset⟩ := ok_of_bind hread
  obtain ⟨rfl, -⟩ := locate_ok hsource
  obtain ⟨htargetPlace, hfits⟩ := writable_ok htarget
  have hother (x : Place) (hx : x ≠ Path.placeFrom directory target) := node?_copy h hx
  rw [← htargetPlace] at hne hother ⊢
  have hfile := contentAt_ok hcontent
  rw [file?_set_other _ hne] at hfile
  obtain rfl := Except.ok.inj hset
  have hagain := (hfits []).again content
  have hself := node?_set_self hagain
  exact ⟨content, hfile, file?_set_self hagain, locate_of_writable htarget hself hother, hother⟩

/-! ### Creating directories -/

/-- A tree that is another with directories put where nothing was. -/
def Grows (tree tree' : Tree) (places : Place → Prop) : Prop :=
  ∀ place, tree'.node? place = tree.node? place ∨
    tree.node? place = none ∧ tree'.node? place = some .directory ∧ places place

theorem Grows.refl (tree : Tree) (places : Place → Prop) : Grows tree tree places :=
  fun _ => .inl rfl

theorem Grows.trans {places : Place → Prop} {mid : Tree} (h : Grows tree mid places)
    (h' : Grows mid tree' places) : Grows tree tree' places := by
  intro place
  rcases h place with hsame | ⟨hnone, hdir, hp⟩
  · rcases h' place with hsame' | ⟨hnone', hdir', hp⟩
    · exact .inl (hsame'.trans hsame)
    · exact .inr ⟨hsame ▸ hnone', hdir', hp⟩
  · rcases h' place with hsame' | ⟨hnone', -, -⟩
    · exact .inr ⟨hnone, hsame'.trans hdir, hp⟩
    · rw [hdir] at hnone'
      cases hnone'

theorem Grows.mono {places more : Place → Prop} (h : Grows tree tree' places)
    (hmore : ∀ place, places place → more place) : Grows tree tree' more := by
  intro place
  rcases h place with hsame | ⟨hnone, hdir, hp⟩
  · exact .inl hsame
  · exact .inr ⟨hnone, hdir, hmore place hp⟩

theorem Grows.file? {places : Place → Prop} (h : Grows tree tree' places) (place : Place) :
    tree'.file? place = tree.file? place := by
  rcases h place with hsame | ⟨hnone, hdir, -⟩
  · exact file?_of_node? hsame
  · rw [Tree.file?, hdir, Tree.file?, hnone]

theorem Grows.keeps {places : Place → Prop} (h : Grows tree tree' places)
    (hdir : tree.node? place = some .directory) : tree'.node? place = some .directory := by
  rcases h place with hsame | ⟨hnone, -, -⟩
  · exact hsame.trans hdir
  · rw [hdir] at hnone
    cases hnone

/-- Where a directory can be created. -/
def vacant (tree : Tree) (directory : Place) (path : Path) : Except IoError Place := do
  let parent ← tree.lastDirectory directory path
  match (Path.steps path).getLast? with
  | none => .error (.os exists_)
  | some name =>
    if isRelativeName name then .error (.os exists_)
    else if nameLimit < name.length then .error (.os nameTooLong)
    else
      match tree.node? (parent ++ [name]) with
      | some _ => .error (.os exists_)
      | none => .ok (parent ++ [name])

theorem makeDirectory_eq (tree : Tree) (directory : Place) (path : Path) :
    tree.makeDirectory directory path =
      (tree.vacant directory path).map fun place => tree.set place .directory := by
  unfold makeDirectory vacant
  cases tree.lastDirectory directory path with
  | error e => rfl
  | ok parent =>
    show (match (Path.steps path).getLast? with | none => _ | some name => _) =
      Except.map _ (match (Path.steps path).getLast? with | none => _ | some name => _)
    cases (Path.steps path).getLast? with
    | none => rfl
    | some name =>
      dsimp only
      split
      · rfl
      · split
        · rfl
        · cases tree.node? (parent ++ [name]) <;> rfl

/-- A directory can be created where nothing is, in a directory that is there. -/
theorem vacant_ok (h : tree.vacant directory path = .ok place) :
    place = Path.placeFrom directory path ∧ tree.node? place = none ∧ tree.Fits place .directory ∧
      ∀ x ∈ trailFrom (origin directory path) (Path.steps path).dropLast,
        tree.node? x = some .directory := by
  obtain ⟨parent, hparent, hrest⟩ := ok_of_bind h
  obtain ⟨-, htrail⟩ := lastDirectory_ok hparent
  split at hrest
  · cases hrest
  · rename_i name hlast
    split at hrest
    · cases hrest
    · rename_i hname
      split at hrest
      · cases hrest
      · split at hrest
        · cases hrest
        · rename_i hnode
          obtain rfl := Except.ok.inj hrest
          exact ⟨placeFrom_of_lastDirectory hparent hlast (Bool.eq_false_iff.mpr hname), hnode,
            fits_last hparent fun _ => rfl, htrail⟩

theorem makeDirectory_ok (h : tree.makeDirectory directory path = .ok tree') :
    tree.node? (Path.placeFrom directory path) = none ∧
      tree' = tree.set (Path.placeFrom directory path) .directory ∧
      tree'.node? (Path.placeFrom directory path) = some .directory ∧
      ∀ x ∈ trailFrom (origin directory path) (Path.steps path).dropLast,
        tree.node? x = some .directory := by
  rw [makeDirectory_eq] at h
  obtain ⟨place, hvacant, rfl⟩ := map_eq_ok_iff.mp h
  obtain ⟨rfl, hnone, hfits, htrail⟩ := vacant_ok hvacant
  exact ⟨hnone, rfl, node?_set_self hfits, htrail⟩

theorem Grows.of_makeDirectory (h : tree.makeDirectory directory path = .ok tree') :
    Grows tree tree' (· = Path.placeFrom directory path) := by
  obtain ⟨hnone, rfl, hmade, -⟩ := makeDirectory_ok h
  intro place
  by_cases hp : place = Path.placeFrom directory path
  · rw [hp]
    exact .inr ⟨hnone, hmade, rfl⟩
  · exact .inl (node?_set_other tree _ hp)

theorem mem_trailFrom_dropLast {place x : Place} {names : List Name}
    (h : x ∈ trailFrom place names) :
    x ∈ trailFrom place names.dropLast ∨ x = names.foldl go place := by
  induction names generalizing place with
  | nil => exact .inl h
  | cons name names ih =>
    cases names with
    | nil =>
      rcases List.mem_cons.mp h with rfl | h
      · exact .inl List.mem_cons_self
      · exact .inr (List.mem_singleton.mp h)
    | cons next names =>
      rcases List.mem_cons.mp h with rfl | h
      · exact .inl List.mem_cons_self
      · rcases ih h with h | h
        · exact .inl (List.mem_cons_of_mem _ h)
        · exact .inr h

/-- The trail of a directory that was created consists of directories. -/
theorem trail_of_makeDirectory (h : tree.makeDirectory directory path = .ok tree') {x : Place}
    (hx : x ∈ Path.trail directory path) : tree'.node? x = some .directory := by
  have hgrows := Grows.of_makeDirectory h
  obtain ⟨-, -, hmade, htrail⟩ := makeDirectory_ok h
  rcases mem_trailFrom_dropLast hx with hx | rfl
  · exact hgrows.keeps (htrail x hx)
  · exact hmade

theorem trail_of_isDirectoryAt (h : tree.isDirectoryAt directory path = true) {x : Place}
    (hx : x ∈ Path.trail directory path) : tree.node? x = some .directory := by
  unfold isDirectoryAt at h
  split at h
  · rename_i place hlocate
    obtain ⟨-, htrail⟩ := locate_ok hlocate
    rcases htrail x hx with rfl | hx
    · exact beq_iff_eq.mp h
    · exact hx
  · cases h

/-- A directory that is wanted is created, or is there, or is missing still, at first or when those
above it have been seen to. -/
theorem makeChain_cons (tree : Tree) (directory : Place) (path : Path) (longer : List Path) :
    ∃ mid, (mid = tree ∨ mid = (tree.makeChain directory longer).2) ∧
      ((∃ tree', mid.makeDirectory directory path = .ok tree' ∧
          tree.makeChain directory (path :: longer) = (.ok (), tree')) ∨
        (mid.isDirectoryAt directory path = true ∧
          tree.makeChain directory (path :: longer) = (.ok (), mid)) ∨
        ∃ e, tree.makeChain directory (path :: longer) = (.error e, mid)) := by
  cases hfirst : tree.makeDirectory directory path with
  | ok tree' =>
    refine ⟨tree, .inl rfl, .inl ⟨tree', hfirst, ?_⟩⟩
    simp only [makeChain, hfirst]
  | error e =>
    by_cases hmissing : e = .os notFound
    · cases hlonger : tree.makeChain directory longer with
      | mk result mid =>
        refine ⟨mid, .inr rfl, ?_⟩
        cases result with
        | error e =>
          refine .inr (.inr ⟨e, ?_⟩)
          simp only [makeChain, hfirst, if_pos hmissing, hlonger]
        | ok u =>
          cases hagain : mid.makeDirectory directory path with
          | ok tree' =>
            refine .inl ⟨tree', rfl, ?_⟩
            simp only [makeChain, hfirst, if_pos hmissing, hlonger, hagain]
          | error e =>
            by_cases hthere : e = .os exists_ ∧ mid.isDirectoryAt directory path = true
            · refine .inr (.inl ⟨hthere.2, ?_⟩)
              simp only [makeChain, hfirst, if_pos hmissing, hlonger, hagain, if_pos hthere]
            · refine .inr (.inr ⟨e, ?_⟩)
              simp only [makeChain, hfirst, if_pos hmissing, hlonger, hagain, if_neg hthere]
    · refine ⟨tree, .inl rfl, .inr ?_⟩
      by_cases hthere : e = .os exists_ ∧ tree.isDirectoryAt directory path = true
      · refine .inl ⟨hthere.2, ?_⟩
        simp only [makeChain, hfirst, if_neg hmissing, if_pos hthere]
      · refine .inr ⟨e, ?_⟩
        simp only [makeChain, hfirst, if_neg hmissing, if_neg hthere]

theorem grows_makeChain (tree : Tree) (directory : Place) (paths : List Path) :
    Grows tree (tree.makeChain directory paths).2
      (fun x => ∃ a ∈ paths, x = Path.placeFrom directory a) := by
  induction paths with
  | nil => exact .refl _ _
  | cons path longer ih =>
    obtain ⟨mid, hmid, hcases⟩ := makeChain_cons tree directory path longer
    have hgrows : Grows tree mid (fun x => ∃ a ∈ path :: longer, x = Path.placeFrom directory a) := by
      rcases hmid with rfl | rfl
      · exact .refl _ _
      · exact ih.mono fun x ⟨a, ha, hx⟩ => ⟨a, List.mem_cons_of_mem _ ha, hx⟩
    rcases hcases with ⟨tree', hmake, heq⟩ | ⟨-, heq⟩ | ⟨e, heq⟩
    · rw [heq]
      exact hgrows.trans ((Grows.of_makeDirectory hmake).mono fun x hx =>
        ⟨path, List.mem_cons_self, hx⟩)
    · rw [heq]
      exact hgrows
    · rw [heq]
      exact hgrows

theorem trail_of_makeChain {longer : List Path}
    (h : tree.makeChain directory (path :: longer) = (.ok (), tree')) {x : Place}
    (hx : x ∈ Path.trail directory path) : tree'.node? x = some .directory := by
  obtain ⟨mid, -, ⟨tree'', hmake, heq⟩ | ⟨hthere, heq⟩ | ⟨e, heq⟩⟩ :=
    makeChain_cons tree directory path longer
  · rw [heq] at h
    cases h
    exact trail_of_makeDirectory hmake hx
  · rw [heq] at h
    cases h
    exact trail_of_isDirectoryAt hthere hx
  · rw [heq] at h
    cases h

/-! ### Planting -/

/-- Planting a file touches no other file. -/
theorem file?_plant (tree : Tree) (content : Bytes) {other : Place}
    (h : other ≠ Path.placeFrom directory path) :
    (tree.plant directory path content).file? other = tree.file? other := by
  have hgrown : (tree.grow directory (Path.directoryPart path)).file? other = tree.file? other :=
    (grows_makeChain tree directory _).file? other
  unfold plant
  cases hwrite : (tree.grow directory (Path.directoryPart path)).write directory path content with
  | error e => simp only [hwrite, hgrown]
  | ok tree' =>
    obtain ⟨rfl, -⟩ := write_ok hwrite
    simp only [hwrite]
    rw [file?_set_other _ h, hgrown]

/-! ### Directories that stay -/

/-- Whether the directories of a tree are directories in another. -/
def Keeps (tree tree' : Tree) : Prop :=
  ∀ place, tree.node? place = some .directory → tree'.node? place = some .directory

theorem Keeps.refl (tree : Tree) : Keeps tree tree := fun _ hdir => hdir

theorem Keeps.trans {mid : Tree} (h : Keeps tree mid) (h' : Keeps mid tree') : Keeps tree tree' :=
  fun place hdir => h' place (h place hdir)

theorem keeps_makeDirectories (tree : Tree) (directory : Place) (path : Path) :
    Keeps tree (tree.makeDirectories directory path).2 :=
  fun _ hdir => (grows_makeChain tree directory (Path.ancestors path)).keeps hdir

theorem keeps_set (h : tree.node? place ≠ some .directory) (node : Node) :
    Keeps tree (tree.set place node) := by
  intro other hdir
  have hne : other ≠ place := by
    rintro rfl
    exact h hdir
  rw [node?_set_other tree node hne, hdir]

theorem keeps_write {content : Bytes} (h : tree.write directory path content = .ok tree') :
    Keeps tree tree' := by
  obtain ⟨place, hplace, h⟩ := ok_of_bind h
  rw [← Except.ok.inj h]
  exact keeps_set (not_directory_of_writable hplace) _

theorem keeps_copy {source target : Path} (h : tree.copy directory source target = .ok tree') :
    Keeps tree tree' := by
  obtain ⟨sourcePlace, -, hopen⟩ := ok_of_bind h
  obtain ⟨targetPlace, htarget, -⟩ := ok_of_bind hopen
  have hnode := not_directory_of_writable htarget
  obtain ⟨rfl, -⟩ := writable_ok htarget
  intro place hdir
  have hne : place ≠ Path.placeFrom directory target := by
    rintro rfl
    exact hnode hdir
  rw [node?_copy h hne, hdir]

theorem keeps_plant (tree : Tree) (directory : Place) (path : Path) (content : Bytes) :
    Keeps tree (tree.plant directory path content) := by
  have hgrown : Keeps tree (tree.grow directory (Path.directoryPart path)) :=
    keeps_makeDirectories tree directory _
  unfold plant
  cases hwrite : (tree.grow directory (Path.directoryPart path)).write directory path content with
  | error e =>
    simp only [hwrite]
    exact hgrown
  | ok tree' =>
    simp only [hwrite]
    exact hgrown.trans (keeps_write hwrite)

/-- The way to a directory stays. -/
theorem Keeps.locate (h : Keeps tree tree') (hlocate : tree.locate directory path = .ok place)
    (hdir : tree.node? place = some .directory) : tree'.locate directory path = .ok place := by
  obtain ⟨-, htrail⟩ := locate_ok hlocate
  rw [← hlocate]
  refine (locate_congr fun x hx => ?_).symm
  have hnode : tree.node? x = some .directory := by
    rcases htrail x hx with rfl | hnode
    · exact hdir
    · exact hnode
  rw [hnode, h x hnode]

end Tree
end LoaderBench.FileTree
