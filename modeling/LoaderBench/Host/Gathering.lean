import LoaderBench.Host.Config

/-!
# Settings gathered pair by pair

The variables of a process come one after another, and one may come several times. What was found of a
setting is kept until a later pair replaces it. A pair with an empty value is passed over.
-/

namespace LoaderBench.Host

open LoaderBench.Platform

structure Gathered where
  logPath : Option Bytes
  runId : Option String

namespace Gathered

def nothing : Gathered := ⟨none, none⟩

def take (gathered : Gathered) (p : Bytes × Bytes) : Gathered :=
  if p.2 = [] then gathered
  else if p.1 = Utf8.encode logVariable then { gathered with logPath := some p.2 }
  else if p.1 = Utf8.encode runVariable then { gathered with runId := some (Utf8.lossy p.2) }
  else gathered

end Gathered

def Config.gather (process : ProcessId) (pairs : List (Bytes × Bytes)) : Config :=
  let gathered := pairs.foldl Gathered.take .nothing
  ⟨gathered.logPath, gathered.runId.getD process.text⟩

end LoaderBench.Host
