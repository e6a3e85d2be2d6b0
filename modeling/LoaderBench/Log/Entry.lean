import LoaderBench.Json.Printer
import LoaderBench.Time.Stamp

/-!
# Log records

A record tells one event of a host program. Four fields are always there; the others are left out of
the written form when they are absent. A record is written as one line of JSON, its fields in a fixed
order.
-/

namespace LoaderBench.Log

open LoaderBench.Json LoaderBench.Time

inductive Level where
  | info
  | warn
  | error
  deriving DecidableEq

def Level.name : Level → String
  | .info => "info"
  | .warn => "warn"
  | .error => "error"

def levels : List (String × Level) :=
  [("info", .info), ("warn", .warn), ("error", .error)]

theorem lookup_levels (level : Level) : levels.lookup level.name = some level := by
  cases level <;> decide

structure Entry where
  timestamp : String
  traceId : String
  level : Level
  event : String
  host : Option String
  mode : Option String
  target : Option String
  symbol : Option String
  fixtureId : Option Int32
  osCode : Option Int32
  exitCode : Option Int32
  detail : Option String
  deriving DecidableEq

namespace Entry

/-- A record with only what every record has. -/
def new (now : Moment) (traceId : String) (level : Level) (event : String) : Entry where
  timestamp := now.stamp
  traceId := traceId
  level := level
  event := event
  host := none
  mode := none
  target := none
  symbol := none
  fixtureId := none
  osCode := none
  exitCode := none
  detail := none

/-- A member that is left out when there is no value. -/
def optional (key : String) : Option Value → Members
  | none => []
  | some v => [(key, v)]

def members (e : Entry) : Members :=
  [("timestamp", .text e.timestamp), ("trace_id", .text e.traceId),
   ("level", .text e.level.name), ("event", .text e.event)] ++
  optional "host" (e.host.map .text) ++
  optional "mode" (e.mode.map .text) ++
  optional "target" (e.target.map .text) ++
  optional "symbol" (e.symbol.map .text) ++
  optional "fixture_id" (e.fixtureId.map fun i => .integer i.toInt) ++
  optional "os_code" (e.osCode.map fun i => .integer i.toInt) ++
  optional "exit_code" (e.exitCode.map fun i => .integer i.toInt) ++
  optional "detail" (e.detail.map .text)

/-- The written form, without a line break. -/
def line (e : Entry) : String := compact (.object e.members)

end Entry
end LoaderBench.Log
