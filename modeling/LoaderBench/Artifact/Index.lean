import LoaderBench.Artifact.Entry
import LoaderBench.Time.Stamp

/-!
# The index of staged artifacts

An index lists the files of one staging, in the order in which they were added, and tells the run, the
time and the profile. It is written as JSON on several lines.
-/

namespace LoaderBench.Artifact

open LoaderBench.Json LoaderBench.Time

def indexFile : String := "artifact_index.json"

structure Index where
  version : UInt32
  runId : String
  generated : String
  profile : String
  artifacts : List Entry
  deriving DecidableEq

namespace Index

/-- An index without artifacts. -/
def new (now : Moment) (runId profile : String) : Index := ⟨1, runId, now.stamp, profile, []⟩

def add (index : Index) (entry : Entry) : Index :=
  { index with artifacts := index.artifacts ++ [entry] }

/-- The first artifact of a name. -/
def find (index : Index) (name : String) : Option Entry :=
  index.artifacts.find? (·.name == name)

/-! ### Writing -/

def value (index : Index) : Value :=
  .object
    [("index_version", .integer index.version.toNat), ("run_id", .text index.runId),
     ("generated_utc", .text index.generated), ("profile", .text index.profile),
     ("artifacts", .array (index.artifacts.map Entry.value))]

def text (index : Index) : String := pretty index.value

/-! ### Reading -/

structure Draft where
  version : Option UInt32
  runId : Option String
  generated : Option String
  profile : Option String
  artifacts : Option (List Entry)

def Draft.empty : Draft := ⟨none, none, none, none, none⟩

def versionReader : Reader UInt32 := fun s => do
  let (i, rest) ← wholeValue "u32" 0 0xFFFFFFFF s
  .ok (UInt32.ofNat i.toNat, rest)

def form : Form Draft Index where
  title := "struct ArtifactIndex"
  fields :=
    [.of "index_version" Draft.version (fun d v => { d with version := some v }) versionReader,
     .of "run_id" Draft.runId (fun d v => { d with runId := some v }) textValue,
     .of "generated_utc" Draft.generated (fun d v => { d with generated := some v }) textValue,
     .of "profile" Draft.profile (fun d v => { d with profile := some v }) textValue,
     .of "artifacts" Draft.artifacts (fun d v => { d with artifacts := some v })
       (listValue Entry.form.reader)]
  start := .empty
  finish d := do
    let version ← needed "index_version" d.version
    let runId ← needed "run_id" d.runId
    let generated ← needed "generated_utc" d.generated
    let profile ← needed "profile" d.profile
    let artifacts ← needed "artifacts" d.artifacts
    .ok ⟨version, runId, generated, profile, artifacts⟩

def parse (text : String) : Except Json.Error Index := readAll form.reader text

end Index
end LoaderBench.Artifact
