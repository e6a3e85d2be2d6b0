import LoaderBench.Proofs.Artifact.Reading
import LoaderBench.Proofs.FileTree.Change
import LoaderBench.Proofs.Text.Utf8
import LoaderBench.Staging.Storage

/-!
# Files of indexes are read back

An index is written over whatever its file held before. The way to the file leads to what was written
then, and whoever reads all of it as text has the index back.
-/

namespace LoaderBench.Staging

open LoaderBench.Artifact LoaderBench.FileTree LoaderBench.Platform LoaderBench.Text

variable {tree tree' : Tree} {directory place : Place} {into : Path} {index : Index}

/-- The whole content of the file of an index. -/
def indexBytes (index : Index) : Bytes := Utf8.encode (index.text ++ "\n")

/-- Writing an index sets the one place to which the path leads, and fails only where nothing can be
written to this path. -/
theorem writeIndex_ok_iff : writeIndex tree directory into index = .ok tree' ↔
    ∃ place, tree.writable directory (indexPath into) = .ok place ∧
      tree.set place (.file (indexBytes index)) = tree' := by
  have hwrite : writeIndex tree directory into index = .ok tree' ↔
      tree.write directory (indexPath into) (indexBytes index) = .ok tree' := mapError_eq_ok_iff
  rw [hwrite, Tree.write, bind_eq_ok_iff]
  simp only [Except.ok.injEq]

theorem decode?_indexBytes (index : Index) :
    Utf8.decode? (indexBytes index) = some (index.text ++ "\n") := Utf8.decode?_encode _

/-- The text of an index is read as this index, and so is the file of an index that was written,
whatever was in its place. -/
theorem index_read_back (index : Index) :
    Index.parse index.text = .ok index ∧
      ∀ (tree tree' : Tree) (directory : Place) (into : Path),
        writeIndex tree directory into index = .ok tree' →
          ∃ place content text, tree'.locate directory (indexPath into) = .ok place ∧
            tree'.contentAt place = .ok content ∧ Utf8.decode? content = some text ∧
            Index.parse text = .ok index := by
  refine ⟨index.parse_pretty, fun tree tree' directory into h => ?_⟩
  obtain ⟨place, hplace, rfl⟩ := writeIndex_ok_iff.mp h
  obtain ⟨hlocate, hcontent⟩ := Tree.contentAt_of_writable hplace (indexBytes index)
  exact ⟨place, _, _, hlocate, hcontent, decode?_indexBytes index, index.parse_text⟩

/-- An index at the limits of its numbers, with texts that need escapes. -/
def farIndex : Index :=
  ⟨4294967295, "run \"\\\n\u0000\u2028", "", "é\t𝄞",
    [⟨"a", .library, some (-0x8000000000000000), "", 0⟩,
      ⟨"", .host, none, "\u001f", 0xFFFFFFFFFFFFFFFF⟩]⟩

/-- A directory in which the file of an index holds something else. -/
def spoiledTree : Tree :=
  (Tree.bare [Utf8.encode "out"]).set [Utf8.encode "out", Utf8.encode indexFile] (.file [0xFF])

/-- It is written over a file that is no text, and read back. -/
theorem farIndex_read_back :
    ∃ tree', writeIndex spoiledTree [] (Utf8.encode "out") farIndex = .ok tree' ∧
      ∃ place content text, tree'.locate [] (indexPath (Utf8.encode "out")) = .ok place ∧
        tree'.contentAt place = .ok content ∧ Utf8.decode? content = some text ∧
        Index.parse text = .ok farIndex := by
  have hplace : spoiledTree.writable [] (indexPath (Utf8.encode "out")) =
      .ok [Utf8.encode "out", Utf8.encode indexFile] := ok_of_toOption (by decide)
  have hwrite : writeIndex spoiledTree [] (Utf8.encode "out") farIndex = .ok _ :=
    writeIndex_ok_iff.mpr ⟨_, hplace, rfl⟩
  exact ⟨_, hwrite, (index_read_back farIndex).2 _ _ _ _ hwrite⟩

end LoaderBench.Staging
