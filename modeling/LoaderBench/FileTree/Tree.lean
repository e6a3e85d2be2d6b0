import LoaderBench.FileTree.Path
import LoaderBench.Platform.IoError

/-!
# Trees of files

A tree assigns files and directories to *places*; a place is the list of names that leads there from
the root, which is always a directory. Whatever is in a tree stands in a directory. Walking along a path
follows the platform's rules: each step starts from a directory, a dot stays, two dots go up (from the
root nowhere), and a name must exist and must not be too long.

There are files and directories only. Links and devices are left out; every file may be read and written
by everybody, every directory may be changed, and there is room for whatever is written. A call on a tree
therefore fails for its path, and for nothing else.
-/

namespace LoaderBench.FileTree

open LoaderBench.Platform

abbrev Place := List Name

inductive Node where
  | directory
  | file (content : Bytes)
  deriving DecidableEq

/-- What is at a place, going by a list of nodes. The root is always a directory. -/
def nodeAmong (nodes : List (Place × Node)) (place : Place) : Option Node :=
  if place = [] then some .directory else nodes.lookup place

/-- A tree: its nodes, each of which stands in a directory. -/
structure Tree where
  nodes : List (Place × Node)
  standing : ∀ n ∈ nodes, nodeAmong nodes n.1.dropLast = some .directory

theorem lookup_filter_ne (nodes : List (Place × Node)) {place other : Place} (h : other ≠ place) :
    (nodes.filter (·.1 != place)).lookup other = nodes.lookup other := by
  induction nodes with
  | nil => rfl
  | cons n rest ih =>
    obtain ⟨p, node⟩ := n
    by_cases hp : p = place
    · subst hp
      have hb : (other == p) = false := by simpa using h
      simp [List.lookup_cons, hb, ih]
    · have hb : (p != place) = true := by simpa using hp
      simp [List.lookup_cons, hb, ih]

theorem nodeAmong_cons_other (nodes : List (Place × Node)) {place other : Place} (node : Node)
    (h : other ≠ place) :
    nodeAmong ((place, node) :: nodes.filter (·.1 != place)) other = nodeAmong nodes other := by
  have hb : (other == place) = false := by simpa using h
  rw [nodeAmong, nodeAmong, List.lookup_cons, hb, lookup_filter_ne nodes h]

theorem nodeAmong_cons_self (nodes : List (Place × Node)) {place : Place} (node : Node)
    (h : place = [] → node = .directory) : nodeAmong ((place, node) :: nodes) place = some node := by
  by_cases hnil : place = []
  · rw [nodeAmong, if_pos hnil, h hnil]
  · rw [nodeAmong, if_neg hnil, List.lookup_cons_self]

namespace Tree

/-! ### Places -/

def node? (tree : Tree) (place : Place) : Option Node := nodeAmong tree.nodes place

/-- Whether a node can be put at a place: its place is in a directory, and no file takes the place of a
directory. -/
def Fits (tree : Tree) (place : Place) (node : Node) : Prop :=
  tree.node? place.dropLast = some .directory ∧
    (tree.node? place = some .directory → node = .directory)

instance (tree : Tree) (place : Place) (node : Node) : Decidable (tree.Fits place node) :=
  inferInstanceAs (Decidable (_ ∧ _))

/-- A node that is put where it fits stands in a directory, and so do the others still. -/
theorem Fits.standing {tree : Tree} {place : Place} {node : Node} (h : tree.Fits place node) :
    let nodes := (place, node) :: tree.nodes.filter (·.1 != place)
    ∀ n ∈ nodes, nodeAmong nodes n.1.dropLast = some .directory := by
  intro nodes n hn
  have hparent : nodeAmong tree.nodes n.1.dropLast = some .directory := by
    rcases List.mem_cons.mp hn with rfl | hmem
    · exact h.1
    · exact tree.standing n (List.mem_filter.mp hmem).1
  by_cases hplace : n.1.dropLast = place
  · rw [hplace] at hparent ⊢
    obtain rfl := h.2 hparent
    exact nodeAmong_cons_self _ _ fun _ => rfl
  · rw [nodeAmong_cons_other _ _ hplace]
    exact hparent

/-- The tree with a node put at a place where it fits. Where it does not, nothing is put. -/
def set (tree : Tree) (place : Place) (node : Node) : Tree :=
  if h : tree.Fits place node then ⟨(place, node) :: tree.nodes.filter (·.1 != place), h.standing⟩
  else tree

theorem node?_set_self {tree : Tree} {place : Place} {node : Node} (h : tree.Fits place node) :
    (tree.set place node).node? place = some node := by
  rw [set, dif_pos h]
  refine nodeAmong_cons_self _ _ fun hnil => h.2 ?_
  rw [hnil]
  rfl

theorem node?_set_other (tree : Tree) {place other : Place} (node : Node) (h : other ≠ place) :
    (tree.set place node).node? other = tree.node? other := by
  unfold set
  split
  · exact nodeAmong_cons_other _ _ h
  · rfl

/-- A file can be put where a file was put. -/
theorem Fits.again {tree : Tree} {place : Place} {old : Bytes} (h : tree.Fits place (.file old))
    (content : Bytes) : (tree.set place (.file old)).Fits place (.file content) := by
  have hself := node?_set_self h
  refine ⟨?_, fun hdir => ?_⟩
  · have hne : place.dropLast ≠ place := fun heq => nomatch h.2 (heq ▸ h.1)
    rw [node?_set_other tree _ hne]
    exact h.1
  · rw [hself] at hdir
    cases hdir

/-- Whatever is in a tree stands in a directory. -/
theorem node?_dropLast {tree : Tree} {place : Place} {node : Node}
    (h : tree.node? place = some node) : tree.node? place.dropLast = some .directory := by
  unfold node? nodeAmong at h
  split at h
  · rename_i hnil
    rw [hnil]
    rfl
  · obtain ⟨before, after, hnodes, -⟩ := List.lookup_eq_some_iff.mp h
    exact tree.standing (place, node) (hnodes ▸ List.mem_append_right _ List.mem_cons_self)

/-- The tree in which the directories along a place, and nothing else, exist. -/
def bare (place : Place) : Tree :=
  (List.range place.length).foldl (fun tree n => tree.set (place.take (n + 1)) .directory) ⟨[], nofun⟩

/-! ### Walking -/

def nameLimit : Nat := 255

def pathLimit : Nat := 4095

def step (tree : Tree) (place : Place) (name : Name) : Except IoError Place :=
  match tree.node? place with
  | none => .error (.os notFound)
  | some (.file _) => .error (.os notDirectory)
  | some .directory =>
    if name = here then .ok place
    else if name = above then .ok place.dropLast
    else if nameLimit < name.length then .error (.os nameTooLong)
    else
      match tree.node? (place ++ [name]) with
      | none => .error (.os notFound)
      | some _ => .ok (place ++ [name])

def walk (tree : Tree) (place : Place) (names : List Name) : Except IoError Place :=
  names.foldlM tree.step place

/-- Refuses a path that no call accepts. -/
def checkPath (path : Path) : Except IoError Unit :=
  if path.contains 0 then .error .nulInPath
  else if path = [] then .error (.os notFound)
  else if pathLimit < path.length then .error (.os nameTooLong)
  else .ok ()

/-- Where a walk along a path from a working directory starts. -/
def origin (directory : Place) (path : Path) : Place :=
  if Path.isAbsolute path then [] else directory

/-- The place a path leads to. A path that ends with a slash leads to a directory. -/
def locate (tree : Tree) (directory : Place) (path : Path) : Except IoError Place := do
  checkPath path
  let place ← tree.walk (origin directory path) (Path.steps path)
  match tree.node? place with
  | some (.file _) => if Path.endsOpen path then .error (.os notDirectory) else .ok place
  | _ => .ok place

/-- The directory that the last step of a path is taken from. -/
def lastDirectory (tree : Tree) (directory : Place) (path : Path) : Except IoError Place := do
  checkPath path
  let place ← tree.walk (origin directory path) (Path.steps path).dropLast
  match tree.node? place with
  | some .directory => .ok place
  | some (.file _) => .error (.os notDirectory)
  | none => .error (.os notFound)

/-! ### Looking -/

def contentAt (tree : Tree) (place : Place) : Except IoError Bytes :=
  match tree.node? place with
  | some (.file content) => .ok content
  | some .directory => .error (.os isDirectory)
  | none => .error (.os notFound)

def isFile (tree : Tree) (directory : Place) (path : Path) : Bool :=
  match tree.locate directory path with
  | .ok place => (tree.contentAt place).toBool
  | .error _ => false

def isDirectoryAt (tree : Tree) (directory : Place) (path : Path) : Bool :=
  match tree.locate directory path with
  | .ok place => tree.node? place == some .directory
  | .error _ => false

/-! ### Changing files -/

/-- The place of the file that a path opens for writing; the file itself may be missing. -/
def writable (tree : Tree) (directory : Place) (path : Path) : Except IoError Place := do
  let parent ← tree.lastDirectory directory path
  match (Path.steps path).getLast? with
  | none => .error (.os isDirectory)
  | some name =>
    if isRelativeName name ∨ Path.endsOpen path then .error (.os isDirectory)
    else if nameLimit < name.length then .error (.os nameTooLong)
    else
      match tree.node? (parent ++ [name]) with
      | some .directory => .error (.os isDirectory)
      | _ => .ok (parent ++ [name])

/-- The bytes of the file at a place; a missing file has none. -/
def bytesAt (tree : Tree) (place : Place) : Bytes :=
  match tree.node? place with
  | some (.file content) => content
  | _ => []

/-- The tree with a file's content replaced. The file is created if it is missing. -/
def write (tree : Tree) (directory : Place) (path : Path) (content : Bytes) :
    Except IoError Tree := do
  let place ← tree.writable directory path
  .ok (tree.set place (.file content))

def appendAt (tree : Tree) (place : Place) (bytes : Bytes) : Tree :=
  tree.set place (.file (tree.bytesAt place ++ bytes))

/-- Opens a file for appending. The file is created if it is missing. -/
def openAppend (tree : Tree) (directory : Place) (path : Path) : Except IoError (Place × Tree) := do
  let place ← tree.writable directory path
  .ok (place, tree.appendAt place [])

/-- Copies a file. The destination is emptied before the source is read, so a file copied onto itself
is lost. -/
def copy (tree : Tree) (directory : Place) (source target : Path) : Except IoError Tree := do
  let sourcePlace ← tree.locate directory source
  let targetPlace ← tree.writable directory target
  let emptied := tree.set targetPlace (.file [])
  let content ← emptied.contentAt sourcePlace
  .ok (emptied.set targetPlace (.file content))

/-! ### Creating directories -/

/-- Creates a directory whose parent exists. -/
def makeDirectory (tree : Tree) (directory : Place) (path : Path) : Except IoError Tree := do
  let parent ← tree.lastDirectory directory path
  match (Path.steps path).getLast? with
  | none => .error (.os exists_)
  | some name =>
    if isRelativeName name then .error (.os exists_)
    else if nameLimit < name.length then .error (.os nameTooLong)
    else
      match tree.node? (parent ++ [name]) with
      | some _ => .error (.os exists_)
      | none => .ok (tree.set (parent ++ [name]) .directory)

/-- Creates the first of the paths, and before it those after it as far as they are missing. -/
def makeChain (tree : Tree) (directory : Place) : List Path → Except IoError Unit × Tree
  | [] => (.ok (), tree)
  | path :: longer =>
    let present (tree : Tree) (e : IoError) : Except IoError Unit × Tree :=
      if e = .os exists_ ∧ tree.isDirectoryAt directory path then (.ok (), tree) else (.error e, tree)
    match tree.makeDirectory directory path with
    | .ok tree => (.ok (), tree)
    | .error e =>
      if e = .os notFound then
        match makeChain tree directory longer with
        | (.error e, tree) => (.error e, tree)
        | (.ok (), tree) =>
          match tree.makeDirectory directory path with
          | .ok tree => (.ok (), tree)
          | .error e => present tree e
      else present tree e

/-- Creates a directory with all that are missing above it. Those created stay if one fails. -/
def makeDirectories (tree : Tree) (directory : Place) (path : Path) : Except IoError Unit × Tree :=
  tree.makeChain directory (Path.ancestors path)

/-- Creates a directory as `makeDirectories` does, as far as that is possible. -/
def grow (tree : Tree) (directory : Place) (path : Path) : Tree :=
  (tree.makeDirectories directory path).2

/-- Writes a file and creates the directories above it that are missing, as far as that is possible. -/
def plant (tree : Tree) (directory : Place) (path : Path) (content : Bytes) : Tree :=
  let grown := tree.grow directory (Path.directoryPart path)
  match grown.write directory path content with
  | .ok tree => tree
  | .error _ => grown

end Tree
end LoaderBench.FileTree
