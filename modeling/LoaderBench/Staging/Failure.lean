import LoaderBench.FileTree.Path
import LoaderBench.Json.Error
import LoaderBench.Platform.IoError

/-!
# Why staging fails

A failure is told in two forms: `text`, a sentence for people, and `spelled`, which shows all parts with
texts and paths between quotes.
-/

namespace LoaderBench.Staging

open LoaderBench.FileTree LoaderBench.Platform LoaderBench.Text

/-- Why a step of staging fails. -/
inductive Failure where
  | io (context : String) (source : IoError)
  | spawn (program : String) (source : IoError)
  | commandFailed (command status : String)
  | missingArtifact (path : Path)
  | json (source : Json.Error)
  deriving DecidableEq

namespace Failure

def text : Failure → String
  | .io context source => context ++ ": " ++ source.text
  | .spawn program source => "failed to run " ++ program ++ ": " ++ source.text
  | .commandFailed command status => command ++ " failed with status " ++ status
  | .missingArtifact path => "expected build output not found: " ++ Utf8.lossy path
  | .json source => "failed to serialize artifact index: " ++ source.message

/-- The words of the failure behind a failure. -/
def sourceText? : Failure → Option String
  | .io _ source => some source.text
  | .spawn _ source => some source.text
  | .commandFailed _ _ => none
  | .missingArtifact _ => none
  | .json source => some source.message

/-- A JSON error spelled out. One without a place counts as standing before the first line. -/
def spelledJson (e : Json.Error) : String :=
  let place := e.position.getD ⟨0, 0⟩
  "Error(" ++ quoted e.cause.message ++ ", line: " ++ String.ofList (digits place.line) ++
    ", column: " ++ String.ofList (digits place.column) ++ ")"

/-- A failure with all its parts, spelled out. -/
def spelled : Failure → String
  | .io context source =>
    "Io \x7b context: " ++ quoted context ++ ", source: " ++ source.spelled ++ " \x7d"
  | .spawn program source =>
    "Spawn \x7b program: " ++ quoted program ++ ", source: " ++ source.spelled ++ " \x7d"
  | .commandFailed command status =>
    "CommandFailed \x7b command: " ++ quoted command ++ ", status: " ++ quoted status ++ " \x7d"
  | .missingArtifact path => "MissingArtifact(" ++ quotedPath path ++ ")"
  | .json source => "Json(" ++ spelledJson source ++ ")"

end Failure
end LoaderBench.Staging
