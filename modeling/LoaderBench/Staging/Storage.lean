import LoaderBench.Artifact.Index
import LoaderBench.Digest.Hasher
import LoaderBench.FileTree.Tree
import LoaderBench.Staging.Failure
import LoaderBench.Text.Cut
import LoaderBench.Text.Hexadecimal

/-!
# Indexes and files

Files are read in pieces and hashed as they are read. An index takes up a file under the last name of
its path, and is written into a directory under a name of its own.
-/

namespace LoaderBench.Staging

open LoaderBench.Artifact LoaderBench.FileTree LoaderBench.Platform LoaderBench.Text

/-! ### Digests of files -/

/-- Digest, in hexadecimal digits, and length of a content. -/
structure Summary where
  sha256 : String
  sizeBytes : UInt64
  deriving DecidableEq

def Summary.ofPieces (pieces : List Bytes) : Summary :=
  let hasher := pieces.foldl Hasher.update .new
  ⟨hexText hasher.finish, UInt64.ofNat hasher.length⟩

/-- The greatest number of bytes that are read at once. -/
def readLength : Nat := 65536

/-- Fails in the context of a path. -/
def failing (what : String) (path : Path) (e : IoError) : Failure :=
  .io ("failed to " ++ what ++ " " ++ Utf8.lossy path) e

def summarize (tree : Tree) (directory : Place) (path : Path) : Except Failure Summary := do
  let place ← (tree.locate directory path).mapError (failing "open" path)
  let content ← (tree.contentAt place).mapError (failing "read" path)
  .ok (.ofPieces (cut readLength content))

/-! ### Indexes -/

def entryOf (tree : Tree) (directory : Place) (path : Path) (kind : Kind) (variant : Option Int64) :
    Except Failure Artifact.Entry := do
  let summary ← summarize tree directory path
  match Path.fileName? path with
  | none => .error (.missingArtifact path)
  | some name => .ok ⟨Utf8.lossy name, kind, variant, summary.sha256, summary.sizeBytes⟩

/-- Takes a file up into an index. One that cannot be taken up leaves the index as it is. -/
def addFile (tree : Tree) (directory : Place) (path : Path) (kind : Kind) (variant : Option Int64)
    (index : Index) : Except Failure Artifact.Entry × Index :=
  match entryOf tree directory path kind variant with
  | .error e => (.error e, index)
  | .ok entry => (.ok entry, index.add entry)

def indexPath (into : Path) : Path := Path.joinText into indexFile

def writeIndex (tree : Tree) (directory : Place) (into : Path) (index : Index) :
    Except Failure Tree :=
  let path := indexPath into
  (tree.write directory path (Utf8.encode (index.text ++ "\n"))).mapError (failing "write" path)

end LoaderBench.Staging
