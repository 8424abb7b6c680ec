import AuctionGate.Telemetry.Metric

/-!
# The journal

Whatever happens that an operator may want to know is noted as an `Occurrence`. Its log line and
the metrics it touches are functions of it, so the log and the ledger are two views of one journal.
-/

namespace AuctionGate

inductive Level where
  | debug
  | info
  | warn
  | error
  deriving DecidableEq, Repr

def Level.name : Level → String
  | .debug => "DEBUG"
  | .info => "INFO"
  | .warn => "WARN"
  | .error => "ERROR"

/-- How much detail a reader asks for who is to see it; no detail is 0. -/
def Level.detail : Level → Nat
  | .error => 1
  | .warn => 2
  | .info => 3
  | .debug => 4

/-- The part of the gateway that a line comes from. -/
inductive Source where
  | breaker
  | registry
  | pool
  | geolocation
  | dispatcher
  | gateway
  deriving DecidableEq, Repr

def Source.path : Source → List String
  | .breaker => ["circuit_breaker", "breaker"]
  | .registry => ["circuit_breaker", "registry"]
  | .pool => ["upstream", "pool"]
  | .geolocation => ["upstream", "geo"]
  | .dispatcher => ["bidder_dispatch", "dispatcher"]
  | .gateway => ["gateway"]

structure Line where
  level : Level
  source : Source
  message : String
  fields : List (String × String)
  deriving DecidableEq, Repr

private def Line.body (l : Line) : String :=
  " ".intercalate (l.message :: l.fields.map fun (k, v) => k ++ "=" ++ v)

/-- `LEVEL message field=value` -/
def Line.text (l : Line) : String :=
  l.level.name ++ " " ++ l.body

def Source.name (s : Source) : String := "::".intercalate s.path

/-- `LEVEL source: message field=value` -/
def Line.sourcedText (l : Line) : String :=
  l.level.name ++ " " ++ l.source.name ++ ": " ++ l.body

inductive Occurrence where
  | breakerCreated (key : String)
  | breakerOpened (key : String) (failures : Nat)
  | breakerHalfOpened (key : String)
  | breakerClosed (key : String)
  | failuresForgiven (key : String) (failures : Nat)
  | callRejected (key : String)
  | poolReady (pool : String) (addresses : Nat)
  | addressRemoved (pool address : String) (live : Nat)
  | addressAdded (pool address : String) (live : Nat)
  | addressIgnored (pool address : String)
  | poolRefreshed (pool : String) (live configured : Nat)
  | lookupFinished (ok : Bool) (ms : Nat)
  | lookupFailed (address : String)
  | nothingBuilt (partner : String)
  | callSkipped (partner : String)
  | callFailed (partner uri kind : String)
  | dispatchFinished (partner : String) (ms : Nat)
  | callDied
  | callsGuarded
  | metricsReported (host : String) (port : Nat)
  | gatewayStarted (geolocation : Bool)
  | gatewayStopping
  deriving DecidableEq, Repr

namespace Occurrence

def line? : Occurrence → Option Line
  | breakerCreated key => some ⟨.debug, .registry, "Creating circuit breaker", [("key", key)]⟩
  | breakerOpened key n =>
    some ⟨.warn, .breaker, "Circuit breaker opened", [("key", key), ("failures", toString n)]⟩
  | breakerHalfOpened key =>
    some ⟨.info, .breaker, "Circuit breaker half-open, waiting for probe", [("key", key)]⟩
  | breakerClosed key => some ⟨.info, .breaker, "Circuit breaker closed", [("key", key)]⟩
  | failuresForgiven key n =>
    some ⟨.debug, .breaker, "Opening window elapsed, forgiving failures",
      [("key", key), ("failures", toString n)]⟩
  | poolReady pool n =>
    some ⟨.info, .pool, "Address pool ready", [("pool", pool), ("addresses", toString n)]⟩
  | addressRemoved pool a _ =>
    some ⟨.info, .pool, "Address removed from rotation", [("pool", pool), ("address", a)]⟩
  | addressAdded pool a _ =>
    some ⟨.info, .pool, "Address returned to rotation", [("pool", pool), ("address", a)]⟩
  | addressIgnored pool a =>
    some ⟨.debug, .pool, "Ignoring address outside the pool", [("pool", pool), ("address", a)]⟩
  | poolRefreshed pool live configured =>
    some ⟨.debug, .pool, "Refreshing address pool",
      [("pool", pool), ("live", toString live), ("configured", toString configured)]⟩
  | lookupFailed a => some ⟨.debug, .geolocation, "Geolocation lookup failed", [("address", a)]⟩
  | nothingBuilt partner =>
    some ⟨.warn, .dispatcher, "Adapter built neither calls nor errors", [("partner", partner)]⟩
  | callFailed partner uri _ =>
    some ⟨.debug, .dispatcher, "Partner call failed", [("partner", partner), ("uri", uri)]⟩
  | callDied => some ⟨.error, .dispatcher, "Partner call task failed", []⟩
  | callsGuarded => some ⟨.info, .gateway, "Partner calls guarded by host circuit breakers", []⟩
  | metricsReported host port =>
    some ⟨.info, .gateway, "Metrics reporting to statsd",
      [("host", host), ("port", toString port)]⟩
  | gatewayStarted geolocation =>
    some ⟨.info, .gateway, "Gateway started", [("geolocation", toString geolocation)]⟩
  | gatewayStopping => some ⟨.info, .gateway, "Shutting down", []⟩
  | callRejected _ | lookupFinished .. | callSkipped _ | dispatchFinished .. => none

/-- The series an occurrence touches. -/
def touches : Occurrence → List (Series × Touch)
  | breakerOpened key _ => [(⟨.breakerOpened, [("key", key)]⟩, .increment)]
  | breakerHalfOpened key => [(⟨.breakerHalfOpened, [("key", key)]⟩, .increment)]
  | breakerClosed key => [(⟨.breakerClosed, [("key", key)]⟩, .increment)]
  | callRejected key => [(⟨.breakerRejected, [("key", key)]⟩, .increment)]
  | poolReady pool n => [(⟨.poolLive, [("pool", pool)]⟩, .set n)]
  | addressRemoved pool _ live =>
    [(⟨.addressRemoved, [("pool", pool)]⟩, .increment), (⟨.poolLive, [("pool", pool)]⟩, .set live)]
  | addressAdded pool _ live =>
    [(⟨.addressAdded, [("pool", pool)]⟩, .increment), (⟨.poolLive, [("pool", pool)]⟩, .set live)]
  | poolRefreshed pool _ configured =>
    [(⟨.poolRefreshed, [("pool", pool)]⟩, .increment),
      (⟨.poolLive, [("pool", pool)]⟩, .set configured)]
  | lookupFinished ok ms =>
    [(⟨.lookupDuration, [("status", if ok then "ok" else "error")]⟩, .sample ms)]
  | callSkipped partner => [(⟨.callsSkipped, [("partner", partner)]⟩, .increment)]
  | callFailed partner _ kind =>
    [(⟨.callErrors, [("partner", partner), ("kind", kind)]⟩, .increment)]
  | dispatchFinished partner ms => [(⟨.dispatchDuration, [("partner", partner)]⟩, .sample ms)]
  | _ => []

end Occurrence

/-- What has occurred, the latest first. -/
abbrev Journal := List Occurrence

namespace Journal

/-- Notes occurrences in the order given. -/
def note (j : Journal) (os : List Occurrence) : Journal := os.reverse ++ j

/-- What has occurred, in order. -/
def history (j : Journal) : List Occurrence := j.reverse

def lines (j : Journal) : List Line := j.history.filterMap Occurrence.line?

def ledger (j : Journal) : Ledger :=
  (j.history.flatMap Occurrence.touches).foldl (fun l (s, t) => l.touch s t) []

end Journal

end AuctionGate
