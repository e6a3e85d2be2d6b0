import LoaderBench.Json.Printer
import LoaderBench.Json.Record

/-!
# Staged artifacts

What an index tells about one staged file: its name, what kind of thing it is, the variant it was built
with (for the library that has variants), and the digest and length of its content.
-/

namespace LoaderBench.Artifact

open LoaderBench.Json

inductive Kind where
  | host
  | library
  deriving DecidableEq

def Kind.name : Kind → String
  | .host => "host"
  | .library => "library"

def kinds : List (String × Kind) := [("host", .host), ("library", .library)]

theorem lookup_kinds (kind : Kind) : kinds.lookup kind.name = some kind := by
  cases kind <;> decide

/-- What an index tells about a file. The digest is given in hexadecimal digits. -/
structure Entry where
  name : String
  kind : Kind
  variant : Option Int64
  sha256 : String
  sizeBytes : UInt64
  deriving DecidableEq

namespace Entry

/-! ### Writing -/

/-- The member for the variant, if there is one. -/
def variantMember : Option Int64 → Members
  | none => []
  | some v => [("variant", .integer v.toInt)]

def value (e : Entry) : Value :=
  .object <|
    [("name", .text e.name), ("kind", .text e.kind.name)] ++ variantMember e.variant ++
      [("sha256", .text e.sha256), ("size_bytes", .integer e.sizeBytes.toNat)]

/-! ### Reading -/

structure Draft where
  name : Option String
  kind : Option Kind
  variant : Option (Option Int64)
  sha256 : Option String
  sizeBytes : Option UInt64

def Draft.empty : Draft := ⟨none, none, none, none, none⟩

def variantReader : Reader Int64 := fun s => do
  let (i, rest) ← wholeValue "i64" Int64.minValue.toInt Int64.maxValue.toInt s
  .ok (Int64.ofInt i, rest)

def sizeReader : Reader UInt64 := fun s => do
  let (i, rest) ← wholeValue "u64" 0 0xFFFFFFFFFFFFFFFF s
  .ok (UInt64.ofNat i.toNat, rest)

/-- The form of entries. A variant may be left out. -/
def form : Form Draft Entry where
  title := "struct ArtifactEntry"
  fields :=
    [.of "name" Draft.name (fun d v => { d with name := some v }) textValue,
     .of "kind" Draft.kind (fun d v => { d with kind := some v }) (variantValue kinds),
     .of "variant" Draft.variant (fun d v => { d with variant := some v })
       (optionalValue variantReader),
     .of "sha256" Draft.sha256 (fun d v => { d with sha256 := some v }) textValue,
     .of "size_bytes" Draft.sizeBytes (fun d v => { d with sizeBytes := some v }) sizeReader]
  start := .empty
  finish d := do
    let name ← needed "name" d.name
    let kind ← needed "kind" d.kind
    let sha256 ← needed "sha256" d.sha256
    let sizeBytes ← needed "size_bytes" d.sizeBytes
    .ok ⟨name, kind, d.variant.getD none, sha256, sizeBytes⟩

end Entry
end LoaderBench.Artifact
