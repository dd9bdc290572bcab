import NginxConfig.Value

/-!
# Builder settings

The values that a new configuration starts with.
-/

namespace NginxConfig

inductive WorkerProcesses where
  /-- As many as the machine has processors. -/
  | auto
  | count (n : UInt32)
  deriving DecidableEq, Repr, Inhabited

namespace WorkerProcesses

def text : WorkerProcesses → String
  | .auto => "auto"
  | .count n => toString n.toNat

def value : WorkerProcesses → Value
  | .auto => .str "auto"
  | .count n => .int (Int64.ofNat n.toNat)

end WorkerProcesses

structure Settings where
  workerProcesses : WorkerProcesses := .auto
  /-- Connections of each worker. -/
  workerConnections : UInt32 := 512
  errorLog : String := "logs/error.log"
  /-- Whether to run in the background. -/
  daemon : Bool := false
  deriving DecidableEq, Repr, Inhabited

/-- The options of the global scope. -/
def Settings.globalOptions (s : Settings) : Options :=
  .ofList [("worker_processes", s.workerProcesses.value), ("error_log", .str s.errorLog),
    ("daemon", .bool s.daemon)]

def Settings.eventOptions (s : Settings) : Options :=
  .ofList [("worker_connections", .int (Int64.ofNat s.workerConnections.toNat))]

end NginxConfig
