import AuctionGate.Breaker.Config
import AuctionGate.Text.Blank

/-!
# Configuration

What the gateway is told, and the first thing that is wrong with it. Times are milliseconds, but
for the interval of the pool's refresh, which is in seconds.
-/

namespace AuctionGate

/-- Addresses of interchangeable instances of one service. -/
structure PoolConfig where
  addresses : List String
  refreshIntervalSeconds : UInt64 := 3600
  deriving DecidableEq, Repr

namespace PoolConfig

inductive Fault where
  | noAddresses
  | refreshInterval
  deriving DecidableEq, Repr

def Fault.message : Fault → String
  | noAddresses => "address pool must list at least one address"
  | refreshInterval => "refresh interval must be greater than 0"

def fault? (c : PoolConfig) : Option Fault :=
  if c.addresses.isEmpty then some .noAddresses
  else if c.refreshIntervalSeconds = 0 then some .refreshInterval
  else none

end PoolConfig

structure GeolocationConfig where
  pool : PoolConfig
  path : String := "/geo"
  timeout : UInt64 := 50
  breaker : Breaker.Config
  deriving DecidableEq, Repr

namespace GeolocationConfig

inductive Fault where
  | pool (f : PoolConfig.Fault)
  | breaker (f : Breaker.Config.Fault)
  | path (p : String)
  | timeout
  deriving DecidableEq, Repr

def Fault.message : Fault → String
  | pool f => f.message
  | breaker f => "circuit breaker: " ++ f.message
  | path p => "lookup path must start with '/': " ++ p
  | timeout => "lookup timeout must be greater than 0"

def fault? (c : GeolocationConfig) : Option Fault :=
  match c.pool.fault?, c.breaker.fault? with
  | some f, _ => some (.pool f)
  | none, some f => some (.breaker f)
  | none, none =>
    if c.path.toList.head? ≠ some '/' then some (.path c.path)
    else if c.timeout = 0 then some .timeout
    else none

end GeolocationConfig

/-- How partners are called. -/
structure CallConfig where
  connectTimeout : Option UInt64 := none
  breaker : Option Breaker.Config := none
  deriving DecidableEq, Repr

def CallConfig.fault? (c : CallConfig) : Option Breaker.Config.Fault :=
  c.breaker.bind (·.fault?)

/-- Where metrics are reported to. -/
structure MetricsConfig where
  host : String
  port : UInt16
  deriving DecidableEq, Repr

namespace MetricsConfig

/-- Why nothing can be reported. -/
inductive ReportFault where
  | blankHost
  | noPort
  deriving DecidableEq, Repr

def ReportFault.message : ReportFault → String
  | blankHost => "Empty hostname is not allowed"
  | noPort => "Port number must be nonzero"

def reportFault? (c : MetricsConfig) : Option ReportFault :=
  if c.host.toList.all Text.isBlank then some .blankHost
  else if c.port = 0 then some .noPort
  else none

end MetricsConfig

structure GatewayConfig where
  sentryDsn : Option String := none
  metrics : Option MetricsConfig := none
  calls : CallConfig := {}
  geolocation : Option GeolocationConfig := none
  deriving DecidableEq, Repr

namespace GatewayConfig

inductive Fault where
  | calls (f : Breaker.Config.Fault)
  | geolocation (f : GeolocationConfig.Fault)
  | noMetricsHost
  deriving DecidableEq, Repr

def Fault.message : Fault → String
  | calls f => "bidder_http: " ++ f.message
  | geolocation f => "geolocation: " ++ f.message
  | noMetricsHost => "metrics: statsd_host must not be empty"

def fault? (c : GatewayConfig) : Option Fault :=
  match c.calls.fault?, c.geolocation.bind (·.fault?) with
  | some f, _ => some (.calls f)
  | none, some f => some (.geolocation f)
  | none, none => if c.metrics.any (·.host = "") then some .noMetricsHost else none

end GatewayConfig

end AuctionGate
