import NginxConfig.Section

/-!
# A sample configuration
-/

namespace NginxConfig

/-- A small but complete configuration: one server that listens on a port. -/
def sampleConfiguration (workers : Nat) (port : UInt16) : Section :=
  let listener := (Section.block "server").setOption "listen" (.int (Int64.ofNat port.toNat))
  let server := listener.addSection (.location "/")
  let http := ((Section.block "http").setOption "access_log"
    (.ofTexts ["logs/access.log", "combined"])).addSection server
  let events := (Section.block "events").setOption "worker_connections" (.int 4096)
  let top := (Section.group.setOption "worker_processes" (.ofCount workers)).setOption
    "error_log" (.str "logs/error.log")
  Section.group.addSections [top, events, http]

end NginxConfig
