import LoaderBench.CommandLine.Options

/-!
# Requests

What the arguments of the staging program ask for: staging, staging followed by the tests, or help.
-/

namespace LoaderBench.CommandLine

inductive Request where
  | stage (out : Option Bytes) (release : Bool)
  | test (release keepArtifacts : Bool)
  deriving DecidableEq

def commandNames : List String := ["stage", "test", "help"]

def stageGrammar : Grammar := ⟨["release"], ["out"]⟩

def testGrammar : Grammar := ⟨["release", "keep-artifacts"], []⟩

def stageRequest (given : Given) : Request :=
  .stage (given.values.lookup "out") (given.flags.contains "release")

def testRequest (given : Given) : Request :=
  .test (given.flags.contains "release") (given.flags.contains "keep-artifacts")

def helpOn : List Bytes → Turn
  | [] => .help
  | [name] => if (commandNames.map Utf8.encode).contains name then .help else .misuse
  | _ => .misuse

def Request.ofArguments : List Bytes → Except Turn Request
  | [] => .error .misuse
  | command :: rest =>
    if command = Utf8.encode "stage" then (stageGrammar.read .none rest).map stageRequest
    else if command = Utf8.encode "test" then (testGrammar.read .none rest).map testRequest
    else if command = Utf8.encode "help" then .error (helpOn rest)
    else .error (if asksHelp (shape command) then .help else .misuse)

end LoaderBench.CommandLine
