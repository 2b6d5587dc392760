import TraceAnomaly.Config.Duration
import TraceAnomaly.Outlier.Config
import TraceAnomaly.Text.Quoted

/-! The settings of the whole program. -/
namespace TraceAnomaly

structure ServerConfig where
  /-- Where to listen: a host and a port, or a port alone. -/
  address : String := ":8080"
  /-- Where to write the statistics on request and at the end. -/
  dumpPath : Option String := none
deriving DecidableEq, Repr

structure ClientConfig where
  /-- The address of the server; without one a rank works on its own. -/
  endpoint : String := ""
  /-- How long a request may take. -/
  timeout : Duration := ⟨5, 0⟩
deriving DecidableEq, Repr

structure Config where
  logLevel : String := "info"
  server : ServerConfig := {}
  client : ClientConfig := {}
  detector : DetectorConfig := {}

namespace Config

/-- What is wrong with settings. -/
inductive Fault where
  | address
  | endpoint (text : String)
  | timeout
  | detector (fault : DetectorConfig.Fault)

def Fault.message : Fault → String
  | .address => "server.addr is required"
  | .endpoint text => s!"client.endpoint must be an http(s) URL, got {Text.quoted text}"
  | .timeout => "client.timeout must be positive"
  | .detector fault => fault.message

/-- Whether a text can be the address of a server. -/
def isEndpoint (text : String) : Bool :=
  "http://".toList.isPrefixOf text.toList || "https://".toList.isPrefixOf text.toList

/-- The first thing that is wrong with the settings, if any. Without an endpoint its timeout does not
matter. -/
def check (c : Config) : Except Fault Unit :=
  if c.server.address.isEmpty then .error .address
  else if !c.client.endpoint.isEmpty && !isEndpoint c.client.endpoint then
    .error (.endpoint c.client.endpoint)
  else if !c.client.endpoint.isEmpty && c.client.timeout.isZero then .error .timeout
  else c.detector.check.mapError .detector

/-- What is logged: as the command line says, or else as configured. -/
def logFilter (c : Config) (commandLine : Option String) : String := commandLine.getD c.logLevel

end Config

end TraceAnomaly
