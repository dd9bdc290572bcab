import NginxConfig.Document.Decode
import NginxConfig.Settings

/-!
# Settings as documents

Settings are a table whose missing fields take their defaults and whose other
fields do not count, or a list of the fields in order.
-/

namespace NginxConfig

/-- A number as a text writes it: digits, after a plus sign or none. -/
def wordText? (s : String) : Option UInt32 :=
  let ds := match s.toList with
    | '+' :: rest => rest
    | cs => cs
  if ds.isEmpty || !ds.all Char.isDigit then none else Document.word? (Decimal.ofDigits ds)

namespace WorkerProcesses

def ofText (s : String) : Except Fault WorkerProcesses :=
  if s = "auto" then .ok .auto
  else
    match wordText? s with
    | some n => .ok (.count n)
    | none => .error (.notACount s)

def decode : Document → Except Fault WorkerProcesses
  | .int n =>
    match Document.word? n with
    | some w => .ok (.count w)
    | none => .error (.noVariant "WorkerProcessesRepr")
  | .text s => ofText s
  | _ => .error (.noVariant "WorkerProcessesRepr")

def toDocument : WorkerProcesses → Document
  | .auto => .text "auto"
  | .count n => .int n.toNat

end WorkerProcesses

/-- The fields of settings that a document has given so far. -/
structure SettingsDraft where
  workerProcesses : Option WorkerProcesses := none
  workerConnections : Option UInt32 := none
  errorLog : Option String := none
  daemon : Option Bool := none
  deriving Inhabited

namespace SettingsDraft

def finish (s : SettingsDraft) : Settings :=
  let default : Settings := {}
  { workerProcesses := s.workerProcesses.getD default.workerProcesses
    workerConnections := s.workerConnections.getD default.workerConnections
    errorLog := s.errorLog.getD default.errorLog
    daemon := s.daemon.getD default.daemon }

/-- Takes up one field; a field that is not of the settings changes nothing. -/
def set (s : SettingsDraft) (key : String) (d : Document) : Except Fault SettingsDraft :=
  match key with
  | "worker_processes" =>
    if s.workerProcesses.isSome then .error (.duplicateField key)
    else (WorkerProcesses.decode d).map fun x => { s with workerProcesses := some x }
  | "worker_connections" =>
    if s.workerConnections.isSome then .error (.duplicateField key)
    else d.asWord.map fun x => { s with workerConnections := some x }
  | "error_log" =>
    if s.errorLog.isSome then .error (.duplicateField key)
    else d.asText.map fun x => { s with errorLog := some x }
  | "daemon" =>
    if s.daemon.isSome then .error (.duplicateField key)
    else d.asBool.map fun x => { s with daemon := some x }
  | _ => .ok s

end SettingsDraft

namespace Settings

def fields : List String :=
  ["worker_processes", "worker_connections", "error_log", "daemon"]

def decode (convention : Convention) : Document → Except Fault Settings
  | .table entries => do
    let start : SettingsDraft := {}
    let draft ← entries.foldlM (fun s (p : String × Document) => s.set p.1 p.2) start
    return draft.finish
  | .list items => do
    let draft ← (fields.zip items).foldlM (fun s p => s.set p.1 p.2) ({} : SettingsDraft)
    if fields.length < items.length && !convention.allowsExtra then throw .tooLong
    return draft.finish
  | d => .error (.wrongKind d "struct BuilderSettings")

def toDocument (s : Settings) : Document :=
  .table
    [("worker_processes", s.workerProcesses.toDocument),
      ("worker_connections", .int s.workerConnections.toNat), ("error_log", .text s.errorLog),
      ("daemon", .bool s.daemon)]

end Settings

end NginxConfig
