import LoaderBench.Text.Utf8

/-!
# Paths

A path is a byte string whose steps are separated by slashes. `steps` are what a walk takes, one after
another. `components` are what names are told from: empty steps do not count, and a dot counts only
where a relative path begins with it.
-/

namespace LoaderBench.FileTree

abbrev Path := Bytes

abbrev Name := Bytes

/-- The slash. -/
def separator : UInt8 := 47

/-- The name by which a directory knows itself. -/
def here : Name := [46]

/-- The name by which a directory knows the one above. -/
def above : Name := [46, 46]

/-- Whether a name stands for a directory by its position. -/
def isRelativeName (name : Name) : Bool := name == here || name == above

namespace Path

/-- The parts between slashes, the empty ones included. -/
def parts : Path → List Name
  | [] => [[]]
  | b :: rest =>
    if b = separator then [] :: parts rest
    else
      match parts rest with
      | [] => [[b]]
      | p :: ps => (b :: p) :: ps

def isAbsolute (path : Path) : Bool := path.head? == some separator

def endsOpen (path : Path) : Bool := path.getLast? == some separator

def steps (path : Path) : List Name := (parts path).filter (· != [])

def components (path : Path) : List Name :=
  match parts path with
  | [] => []
  | first :: rest =>
    (if first = [] then [] else [first]) ++ rest.filter fun p => p != [] && p != here

def ofComponents (absolute : Bool) (components : List Name) : Path :=
  (if absolute then [separator] else []) ++ [separator].intercalate components

/-- The name of what a path leads to, if it ends with a name. -/
def fileName? (path : Path) : Option Name :=
  match (components path).getLast? with
  | none => none
  | some name => if isRelativeName name then none else some name

/-- What stands before the last name of a path: all up to the last slash. -/
def directoryPart (path : Path) : Path := (path.reverse.dropWhile (· != separator)).reverse

/-- A path with its shorter ones, up to its first component. -/
def ancestors (path : Path) : List Path :=
  let names := components path
  if names = [] then []
  else path :: ((List.range names.length).reverse.filter (0 < ·)).map fun n =>
    ofComponents (isAbsolute path) (names.take n)

/-- A path taken from a directory. An absolute path stays as it is. -/
def join (directory path : Path) : Path :=
  if isAbsolute path then path
  else if directory = [] ∨ endsOpen directory then directory ++ path
  else directory ++ separator :: path

/-- A path taken from a directory, where the path is given as text. -/
def joinText (directory : Path) (name : String) : Path := join directory (Utf8.encode name)

end Path
end LoaderBench.FileTree
