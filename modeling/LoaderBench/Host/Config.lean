import LoaderBench.Platform.Process

/-!
# Settings of a host program

Two environment variables count: where log records go, and the name of the run. A variable with an
empty value is as good as unset. Without a name the run is named after the process.
-/

namespace LoaderBench.Host

open LoaderBench.Platform

def logVariable : String := "LWTEST_LOG"

def runVariable : String := "LWTEST_RUN_ID"

structure Config where
  logPath : Option Bytes
  runId : String
  deriving DecidableEq

/-- The value of a variable: of its pairs, the last with a value that is not empty. -/
def setting (key : String) (pairs : List (Bytes × Bytes)) : Option Bytes :=
  ((pairs.filter fun p => p.1 == Utf8.encode key && p.2 != []).getLast?).map Prod.snd

def Config.ofPairs (process : ProcessId) (pairs : List (Bytes × Bytes)) : Config where
  logPath := setting logVariable pairs
  runId := ((setting runVariable pairs).map Utf8.lossy).getD process.text

end LoaderBench.Host
