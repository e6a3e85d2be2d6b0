import LoaderBench.Staging.Storage

/-!
# Building an index

An index is built by one addition after another. A file is read at the time when it is added, so each
addition of a file brings the tree as it is then; an entry can also be put in as it stands.
-/

namespace LoaderBench.Staging

open LoaderBench.Artifact LoaderBench.FileTree

inductive Addition where
  | file (tree : Tree) (directory : Place) (path : Path) (kind : Kind) (variant : Option Int64)
  | entry (given : Artifact.Entry)

/-- Makes an addition to an index. The entry that was added is the result. -/
def Addition.make (index : Index) : Addition → Except Failure Artifact.Entry × Index
  | .file tree directory path kind variant => addFile tree directory path kind variant index
  | .entry given => (.ok given, index.add given)

/-- Makes additions in order, those after one that fails as well. -/
def addAll (index : Index) : List Addition → List (Except Failure Artifact.Entry) × Index
  | [] => ([], index)
  | addition :: rest =>
    let (result, grown) := addition.make index
    let (results, last) := addAll grown rest
    (result :: results, last)

end LoaderBench.Staging
