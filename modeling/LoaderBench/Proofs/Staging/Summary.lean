import LoaderBench.Proofs.Digest.Stream
import LoaderBench.Proofs.FileTree.Change
import LoaderBench.Proofs.Text.Hexadecimal
import LoaderBench.Staging.Intake

/-!
# Summaries tell whole files

The summary of a file is that of its whole content, however the reads cut it: the digest in digits that
can be read back, and the length. The loop that takes it one read after another keeps its buffer full of
old bytes behind the new ones, but hashes and counts the new ones only, and its count overflows for no
length that a word of 64 bits tells.
-/

namespace LoaderBench.Staging

open LoaderBench.FileTree LoaderBench.Text

/-- The summary of a whole content. -/
def Summary.whole (content : Bytes) : Summary :=
  ⟨hexText (Sha256.digest content), UInt64.ofNat content.length⟩

theorem Summary.ofPieces_eq (pieces : List Bytes) :
    Summary.ofPieces pieces = .whole pieces.flatten := by
  have hlength : (pieces.foldl Hasher.update .new).length = pieces.flatten.length := by
    rw [Hasher.update_flatten, Hasher.length_update]
    exact Nat.zero_add _
  rw [Summary.ofPieces, Hasher.finish_of_pieces, hlength, Summary.whole]

theorem summarize_file {tree : Tree} {directory place : Place} {path : Path} {content : Bytes}
    (hlocate : tree.locate directory path = .ok place) (hfile : tree.file? place = some content) :
    summarize tree directory path = .ok (.whole content) := by
  rw [summarize, hlocate]
  show (tree.contentAt place).mapError _ >>= _ = _
  rw [Tree.contentAt_of_file? hfile]
  show Except.ok (Summary.ofPieces (cut readLength content)) = _
  rw [Summary.ofPieces_eq, flatten_cut]

/-! ### One read after another -/

namespace Intake

/-- What a summary under way has to do with the bytes read so far. -/
structure Holds (intake : Intake) (seen : Bytes) : Prop where
  buffer : intake.buffer.length = readLength
  hasher : intake.hasher = Hasher.new.update seen
  size : intake.size.toNat = seen.length

theorem start_holds : start.Holds [] := ⟨List.length_replicate, rfl, rfl⟩

variable {intake : Intake} {seen bytes : Bytes}

theorem counted?_eq_some {size : UInt64} {more : Nat}
    (h : size.toNat + more < 0x10000000000000000) :
    ∃ sum, counted? size more = some sum ∧ sum.toNat = size.toNat + more := by
  refine ⟨size + .ofNat more, by rw [counted?, if_pos h], ?_⟩
  have hmore : (UInt64.ofNat more).toNat = more :=
    UInt64.toNat_ofNat_of_lt' (Nat.lt_of_le_of_lt (Nat.le_add_left _ _) h)
  rw [UInt64.toNat_add, hmore]
  exact Nat.mod_eq_of_lt h

theorem take?_holds (h : intake.Holds seen) (hbytes : bytes.length ≤ readLength)
    (hsum : seen.length + bytes.length < 0x10000000000000000) :
    ∃ next, intake.take? bytes = some next ∧ next.Holds (seen ++ bytes) := by
  have hfits : intake.size.toNat + bytes.length < 0x10000000000000000 := by rwa [h.size]
  obtain ⟨sum, hcounted, hvalue⟩ := counted?_eq_some hfits
  refine ⟨⟨bytes ++ intake.buffer.drop bytes.length, intake.hasher.update bytes, sum⟩, ?_, ?_⟩
  · simp only [take?, h.buffer, if_pos hbytes, hcounted, bind, Option.bind, List.take_left]
  · refine ⟨?_, ?_, ?_⟩
    · have hbuffer := h.buffer
      simp only [List.length_append, List.length_drop]
      omega
    · rw [Hasher.update_append, ← h.hasher]
    · rw [List.length_append, hvalue, h.size]

theorem take?_overflows (h : intake.Holds seen)
    (hsum : ¬ seen.length + bytes.length < 0x10000000000000000) : intake.take? bytes = none := by
  have hcounted : counted? intake.size bytes.length = none := by
    rw [counted?, h.size, if_neg hsum]
  unfold take?
  rw [hcounted]
  split <;> rfl

theorem run?_end (h : intake.Holds seen) : intake.run? [[]] = some (.whole seen) := by
  have hdigest : intake.hasher.finish = Sha256.digest seen := by
    have hone := Hasher.finish_of_pieces [seen]
    rw [List.flatten_singleton] at hone
    rw [h.hasher]
    exact hone
  have hsize : intake.size = UInt64.ofNat seen.length := by
    rw [← h.size, UInt64.ofNat_toNat]
  rw [run?, if_pos rfl, hdigest, hsize, Summary.whole]

/-- The loop comes to the summary of all bytes, if their number fits its word. -/
theorem run?_pieces {pieces : List Bytes} (h : intake.Holds seen)
    (hpieces : ∀ piece ∈ pieces, 1 ≤ piece.length ∧ piece.length ≤ readLength)
    (hseen : seen.length < 0x10000000000000000) :
    intake.run? (pieces ++ [[]]) =
      if (seen ++ pieces.flatten).length < 0x10000000000000000
      then some (.whole (seen ++ pieces.flatten)) else none := by
  induction pieces generalizing intake seen with
  | nil => rw [List.nil_append, List.flatten_nil, List.append_nil, run?_end h, if_pos hseen]
  | cons piece pieces ih =>
    obtain ⟨hpos, hmax⟩ := hpieces piece List.mem_cons_self
    have hrest : ∀ piece ∈ pieces, 1 ≤ piece.length ∧ piece.length ≤ readLength :=
      fun p hp => hpieces p (List.mem_cons_of_mem _ hp)
    have hne : piece ≠ [] := List.ne_nil_of_length_pos hpos
    rw [List.cons_append, run?, if_neg hne, List.flatten_cons, ← List.append_assoc]
    by_cases hsum : seen.length + piece.length < 0x10000000000000000
    · obtain ⟨next, htake, hnext⟩ := take?_holds h hmax hsum
      rw [htake]
      exact ih hnext hrest (by rwa [List.length_append])
    · have hlong : ¬ (seen ++ piece ++ pieces.flatten).length < 0x10000000000000000 := by
        rw [List.length_append, List.length_append]
        omega
      rw [take?_overflows h hsum, if_neg hlong]
      rfl

end Intake

/-! ### Whole files -/

/-- However a file is read in pieces that are not empty and fit the buffer, its summary is that of its
whole content: sixty-four digits that give the digest back, and the length, as long as a word of 64 bits
tells it. The loop of reads comes to the same, and its count overflows only for a length that no word
tells. -/
theorem reading_tells_whole {content : Bytes} {pieces : List Bytes} (hwhole : pieces.flatten = content)
    (hpieces : ∀ piece ∈ pieces, 1 ≤ piece.length ∧ piece.length ≤ readLength) :
    Summary.ofPieces pieces = .whole content ∧
      Intake.start.run? (pieces ++ [[]]) =
        (if content.length < 0x10000000000000000 then some (.whole content) else none) ∧
      (∀ (tree : Tree) (directory place : Place) (path : Path),
        tree.locate directory path = .ok place → tree.contentAt place = .ok content →
          summarize tree directory path = .ok (.whole content)) ∧
      (Summary.whole content).sha256.toList = (Sha256.digest content).flatMap hexPair ∧
      (Summary.whole content).sha256.toList.length = 64 ∧
      (∀ c ∈ (Summary.whole content).sha256.toList, (hexValue? c).isSome) ∧
      hexBytes? (Summary.whole content).sha256.toList = some (Sha256.digest content) ∧
      (content.length < 0x10000000000000000 →
        (Summary.whole content).sizeBytes.toNat = content.length) := by
  have hloop := Intake.run?_pieces Intake.start_holds hpieces (by decide)
  have hlength : (Summary.whole content).sha256.toList.length = 64 := by
    rw [Summary.whole, length_hexText, Sha256.length_digest]
  rw [List.nil_append, hwhole] at hloop
  refine ⟨by rw [Summary.ofPieces_eq, hwhole], hloop, fun tree directory place path hlocate hcontent => ?_,
    toList_hexText _, hlength, fun c hc => isSome_hexValue? hc, hexBytes?_hexText _, fun hlt => ?_⟩
  · exact summarize_file hlocate (Tree.contentAt_ok hcontent)
  · exact UInt64.toNat_ofNat_of_lt' hlt

theorem abc_in_two_pieces :
    (∀ piece ∈ ([[97], [98, 99]] : List Bytes), 1 ≤ piece.length ∧ piece.length ≤ readLength) ∧
      Intake.start.run? [[97], [98, 99], []] =
        some ⟨"ba7816bf8f01cfea414140de5dae2223b00361a396177a9cb410ff61f20015ad", 3⟩ := by
  have hpieces : ∀ piece ∈ ([[97], [98, 99]] : List Bytes),
      1 ≤ piece.length ∧ piece.length ≤ readLength := by decide
  have hwhole : ([[97], [98, 99]] : List Bytes).flatten = [97, 98, 99] := rfl
  obtain ⟨hsummary, hloop, -⟩ := reading_tells_whole hwhole hpieces
  have hvalue : Summary.ofPieces [[97], [98, 99]] =
      ⟨"ba7816bf8f01cfea414140de5dae2223b00361a396177a9cb410ff61f20015ad", 3⟩ := by decide +kernel
  refine ⟨hpieces, ?_⟩
  rw [← hvalue, hsummary]
  exact hloop

end LoaderBench.Staging
