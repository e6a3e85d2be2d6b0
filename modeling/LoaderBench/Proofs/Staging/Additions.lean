import LoaderBench.Proofs.FileTree.LastName
import LoaderBench.Proofs.Staging.Summary
import LoaderBench.Staging.Addition

/-!
# Indexes grow by what succeeds

An addition that succeeds puts one entry at the end of the index, and one that fails leaves the index as
it is, so an index consists of the successes in their order whatever failed between them. What was found
under a name stays what is found there.

A file is added exactly when the path leads to one: that it has no name to be listed under is a failure
that never comes about, as a path without a last name leads to a directory or nowhere.
-/

namespace LoaderBench.Staging

open LoaderBench.Artifact LoaderBench.FileTree LoaderBench.Platform LoaderBench.Text

variable {tree : Tree} {directory place : Place} {path : Path} {kind : Kind} {variant : Option Int64}
  {content : Bytes}

/-! ### One addition -/

/-- What an addition to an index comes to. -/
inductive Adds (index : Index) : Addition → Except Failure Artifact.Entry → Index → Prop where
  | taken {tree : Tree} {directory place : Place} {path : Path} {kind : Kind}
      {variant : Option Int64} {content : Bytes} {name : Name}
      (hlocate : tree.locate directory path = .ok place) (hfile : tree.file? place = some content)
      (hlast : (Path.steps path).getLast? = some name) (hname : Path.fileName? path = some name)
      {entry : Artifact.Entry}
      (hentry : entry = ⟨Utf8.lossy name, kind, variant, hexText (Sha256.digest content),
        .ofNat content.length⟩) :
      Adds index (.file tree directory path kind variant) (.ok entry)
        { index with artifacts := index.artifacts ++ [entry] }
  | unopened {tree : Tree} {directory : Place} {path : Path} {kind : Kind}
      {variant : Option Int64} {e : IoError} (hlocate : tree.locate directory path = .error e) :
      Adds index (.file tree directory path kind variant) (.error (failing "open" path e)) index
  | unread {tree : Tree} {directory place : Place} {path : Path} {kind : Kind}
      {variant : Option Int64} {e : IoError} (hlocate : tree.locate directory path = .ok place)
      (hread : tree.contentAt place = .error e) :
      Adds index (.file tree directory path kind variant) (.error (failing "read" path e)) index
  | listed (entry : Artifact.Entry) :
      Adds index (.entry entry) (.ok entry)
        { index with artifacts := index.artifacts ++ [entry] }

/-- Whether what is to be added is there to be read. -/
def Addition.Readable : Addition → Prop
  | .file tree directory path _ _ =>
    ∃ place content, tree.locate directory path = .ok place ∧ tree.file? place = some content
  | .entry _ => True

theorem summarize_unopened {e : IoError} (hlocate : tree.locate directory path = .error e) :
    summarize tree directory path = .error (failing "open" path e) := by
  rw [summarize, hlocate]
  rfl

theorem summarize_unread {e : IoError} (hlocate : tree.locate directory path = .ok place)
    (hread : tree.contentAt place = .error e) :
    summarize tree directory path = .error (failing "read" path e) := by
  rw [summarize, hlocate]
  show (tree.contentAt place).mapError _ >>= _ = _
  rw [hread]
  rfl

theorem addFile_error {e : Failure} (h : summarize tree directory path = .error e) (index : Index) :
    addFile tree directory path kind variant index = (.error e, index) := by
  simp only [addFile, entryOf, h, bind, Except.bind]

theorem addFile_ok {name : Name} (hlocate : tree.locate directory path = .ok place)
    (hfile : tree.file? place = some content) (hname : Path.fileName? path = some name)
    (index : Index) :
    addFile tree directory path kind variant index =
      (.ok ⟨Utf8.lossy name, kind, variant, (Summary.whole content).sha256,
        (Summary.whole content).sizeBytes⟩,
       index.add ⟨Utf8.lossy name, kind, variant, (Summary.whole content).sha256,
        (Summary.whole content).sizeBytes⟩) := by
  simp only [addFile, entryOf, summarize_file hlocate hfile, bind, Except.bind, hname]

theorem Addition.make_adds (addition : Addition) (index : Index) :
    Adds index addition (addition.make index).1 (addition.make index).2 := by
  cases addition with
  | entry given => exact .listed given
  | file tree directory path kind variant =>
    rw [Addition.make]
    cases hlocate : tree.locate directory path with
    | error e =>
      rw [addFile_error (summarize_unopened hlocate)]
      exact .unopened hlocate
    | ok place =>
      cases hread : tree.contentAt place with
      | error e =>
        rw [addFile_error (summarize_unread hlocate hread)]
        exact .unread hlocate hread
      | ok content =>
        have hfile := Tree.contentAt_ok hread
        obtain ⟨name, hlast, hname⟩ := Tree.fileName?_of_locate hlocate hfile
        rw [addFile_ok hlocate hfile hname]
        exact .taken hlocate hfile hlast hname rfl

variable {index grown : Index} {addition : Addition} {result : Except Failure Artifact.Entry}

theorem Adds.ok_iff (h : Adds index addition result grown) :
    (∃ entry, result = .ok entry) ↔ addition.Readable := by
  cases h with
  | taken hlocate hfile => exact ⟨fun _ => ⟨_, _, hlocate, hfile⟩, fun _ => ⟨_, rfl⟩⟩
  | unopened hlocate =>
    refine ⟨nofun, fun ⟨_, _, hplace, _⟩ => ?_⟩
    rw [hlocate] at hplace
    cases hplace
  | unread hlocate hread =>
    refine ⟨nofun, fun ⟨_, _, hplace, hfile⟩ => ?_⟩
    rw [hlocate] at hplace
    obtain rfl := Except.ok.inj hplace
    rw [Tree.contentAt_of_file? hfile] at hread
    cases hread
  | listed entry => exact ⟨fun _ => trivial, fun _ => ⟨entry, rfl⟩⟩

theorem Adds.not_missing (h : Adds index addition result grown) (path : Path) :
    result ≠ .error (.missingArtifact path) := by
  cases h <;> exact nofun

/-! ### One after another -/

theorem addAll_append (index : Index) (made more : List Addition) :
    addAll index (made ++ more) =
      ((addAll index made).1 ++ (addAll (addAll index made).2 more).1,
       (addAll (addAll index made).2 more).2) := by
  induction made generalizing index with
  | nil => rfl
  | cons addition made ih => simp only [List.cons_append, addAll, ih]

theorem Addition.make_grows (addition : Addition) (index : Index) :
    (addition.make index).2 =
      { index with
          artifacts := index.artifacts ++ (addition.make index).1.toOption.toList } := by
  cases addition with
  | entry given => rfl
  | file tree directory path kind variant =>
    rw [Addition.make, addFile]
    cases entryOf tree directory path kind variant with
    | error e => simp only [Except.toOption, Option.toList_none, List.append_nil]
    | ok entry => rfl

theorem addAll_grows (index : Index) (made : List Addition) :
    (addAll index made).2 =
      { index with
          artifacts := index.artifacts ++ (addAll index made).1.filterMap Except.toOption } := by
  induction made generalizing index with
  | nil => simp only [addAll, List.filterMap_nil, List.append_nil]
  | cons addition made ih =>
    have hgrows := addition.make_grows index
    have hcons (result : Except Failure Artifact.Entry) (rest : List (Except Failure Artifact.Entry)) :
        (result :: rest).filterMap Except.toOption =
          result.toOption.toList ++ rest.filterMap Except.toOption := by
      cases result <;> rfl
    rw [addAll]
    dsimp only
    rw [ih, hcons, hgrows, List.append_assoc]

/-- What is found under a name is the first entry of it. -/
theorem find_eq_some_iff {name : String} {entry : Artifact.Entry} :
    index.find name = some entry ↔
      entry.name = name ∧ ∃ before after, index.artifacts = before ++ entry :: after ∧
        ∀ other ∈ before, other.name ≠ name := by
  rw [Index.find, List.find?_eq_some_iff_append]
  simp only [beq_iff_eq, Bool.not_eq_true', beq_eq_false_iff_ne]

theorem find_addAll {name : String} {entry : Artifact.Entry} (h : index.find name = some entry)
    (more : List Addition) : (addAll index more).2.find name = some entry := by
  rw [addAll_grows, Index.find, List.find?_append, show index.artifacts.find? _ = some entry from h,
    Option.some_or]

/-- An index holds what it began with and then the successes, in order. The next addition puts one more
entry at its end, or leaves it as it is; it succeeds exactly where there is something to be read, and
never for want of a name. What is found under a name is the first entry of it, now and after whatever is
added. -/
theorem index_grows_by_successes (index : Index) (made : List Addition) (next : Addition)
    (name : String) :
    (addAll index made).2 =
        { index with
            artifacts := index.artifacts ++ (addAll index made).1.filterMap Except.toOption } ∧
      (∃ result grown,
        addAll index (made ++ [next]) = ((addAll index made).1 ++ [result], grown) ∧
          Adds (addAll index made).2 next result grown ∧
          ((∃ entry, result = .ok entry) ↔ next.Readable) ∧
          ∀ path, result ≠ .error (.missingArtifact path)) ∧
      (∀ entry, (addAll index made).2.find name = some entry ↔
        entry.name = name ∧ ∃ before after,
          (addAll index made).2.artifacts = before ++ entry :: after ∧
            ∀ other ∈ before, other.name ≠ name) ∧
      ∀ entry, (addAll index made).2.find name = some entry →
        ∀ more, (addAll index (made ++ more)).2.find name = some entry := by
  have hadds := next.make_adds (addAll index made).2
  refine ⟨addAll_grows index made, ⟨_, _, ?_, hadds, hadds.ok_iff, hadds.not_missing⟩,
    fun entry => find_eq_some_iff, fun entry hfind more => ?_⟩
  · rw [addAll_append]
    rfl
  · rw [addAll_append]
    exact find_addAll hfind more

/-- A tree of one file, called `a`. -/
def oneFile : Tree := ⟨[([[97]], .file [104, 105])], by decide⟩

/-- Two dots at the root are refused, and the file that is added next is listed alone. -/
theorem dots_then_file :
    ∃ entry,
      addAll ⟨1, "r", "t", "p", []⟩
        ([.file oneFile [] [46, 46] .host none] ++ [.file oneFile [] [97] .library (some 2)]) =
        ([.error (failing "read" [46, 46] (.os isDirectory)), .ok entry],
         ⟨1, "r", "t", "p", [entry]⟩) := by
  obtain ⟨-, ⟨result, grown, hall, hadds, hok, -⟩, -⟩ :=
    index_grows_by_successes ⟨1, "r", "t", "p", []⟩ [.file oneFile [] [46, 46] .host none]
      (.file oneFile [] [97] .library (some 2)) "a"
  obtain ⟨entry, rfl⟩ := hok.mpr ⟨[[97]], [104, 105], rfl, rfl⟩
  refine ⟨entry, hall.trans ?_⟩
  cases hadds with
  | taken hlocate hfile hlast hname hentry => rfl

end LoaderBench.Staging
