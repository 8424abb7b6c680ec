import AuctionGate.Config.Basic
import AuctionGate.Yaml.Value

/-!
# Reading configuration

Configuration is written in YAML. Members that no reader knows are ignored. The members of the
pool stand among those of the geolocation service, and there they keep the type that they are
written with: an address has to be a text.
-/

namespace AuctionGate

open Yaml

def word16? (d : Document) (n : Node) : Option UInt16 :=
  (d.natBelow? UInt16.size n).map Nat.toUInt16

def word32? (d : Document) (n : Node) : Option UInt32 :=
  (d.natBelow? UInt32.size n).map Nat.toUInt32

def word64? (d : Document) (n : Node) : Option UInt64 :=
  (d.natBelow? UInt64.size n).map Nat.toUInt64

def Breaker.Config.ofNode? (d : Document) (n : Node) : Option Breaker.Config := do
  let ms ← d.members? n
  some
    { openingThreshold := ← required? ms "opening_threshold" (word32? d)
      openingWindow := ← required? ms "opening_window_ms" (word64? d)
      closingDelay := ← required? ms "closing_delay_ms" (word64? d) }

def PoolConfig.ofNode? (d : Document) (n : Node) : Option PoolConfig := do
  let ms ← d.members? n
  some
    { addresses := ← required? ms "addresses" (d.items? d.text?)
      refreshIntervalSeconds := ← defaulted? ms "refresh_interval_secs" (word64? d) 3600 }

/-- A pool among the members of another mapping. -/
def PoolConfig.ofContents? (cs : List (String × Content)) : Option PoolConfig := do
  let named (name : String) := (cs.filter (·.1 = name)).map (·.2)
  let addresses ← match named "addresses" with
    | [c] => c.items? Content.text?
    | _ => none
  let seconds ← match named "refresh_interval_secs" with
    | [] => some 3600
    | [c] => c.natBelow? UInt64.size
    | _ => none
  some ⟨addresses, seconds.toUInt64⟩

/-- The members that the geolocation service takes itself. -/
def GeolocationConfig.names : List String := ["path", "timeout_ms", "circuit_breaker"]

/-- Reads the mapping of a geolocation service that lies `around` mappings deep. -/
def GeolocationConfig.ofNode? (d : Document) (around : Nat) (n : Node) :
    Option GeolocationConfig := do
  let ms ← d.members? n
  let others ← Content.gatherAll? d (around + 1) (ms.filter fun (k, _) => !names.contains k)
  some
    { pool := ← PoolConfig.ofContents? others
      path := ← defaulted? ms "path" d.text? "/geo"
      timeout := ← defaulted? ms "timeout_ms" (word64? d) 50
      breaker := ← required? ms "circuit_breaker" (Breaker.Config.ofNode? d) }

def CallConfig.ofNode? (d : Document) (n : Node) : Option CallConfig := do
  let ms ← d.members? n
  some
    { connectTimeout := ← defaulted? ms "connect_timeout_ms" (d.optional? (word64? d)) none
      breaker :=
        ← defaulted? ms "circuit_breaker" (d.optional? (Breaker.Config.ofNode? d)) none }

def MetricsConfig.ofNode? (d : Document) (n : Node) : Option MetricsConfig := do
  let ms ← d.members? n
  some ⟨← required? ms "statsd_host" d.text?, ← required? ms "statsd_port" (word16? d)⟩

def sentryDsn? (d : Document) (n : Node) : Option (Option String) := do
  let ms ← d.members? n
  defaulted? ms "sentry_dsn" (d.optional? d.text?) none

def GatewayConfig.ofNode? (d : Document) (n : Node) : Option GatewayConfig := do
  let ms ← d.members? n
  some
    { sentryDsn := ← defaulted? ms "logging" (sentryDsn? d) none
      metrics := ← defaulted? ms "metrics" (d.optional? (MetricsConfig.ofNode? d)) none
      calls := ← defaulted? ms "bidder_http" (CallConfig.ofNode? d) {}
      geolocation :=
        ← defaulted? ms "geolocation" (d.optional? (GeolocationConfig.ofNode? d 1)) none }

/-- Reads the root of a document; a missing root does for an empty mapping. -/
def readRoot {α : Type} (f : Document → Node → Option α) (text : Octets) : Option α := do
  let d ← Document.read text
  f d (d.root.getD .empty)

namespace GatewayConfig

/-- Why a file cannot be opened, in the words of the operating system. -/
structure OpenFault where
  code : Nat
  kind : String
  text : String
  deriving DecidableEq, Repr

namespace OpenFault

def missing : OpenFault := ⟨2, "NotFound", "No such file or directory"⟩

def denied : OpenFault := ⟨13, "PermissionDenied", "Permission denied"⟩

def notDirectory : OpenFault := ⟨20, "NotADirectory", "Not a directory"⟩

def message (f : OpenFault) : String := f.text ++ " (os error " ++ toString f.code ++ ")"

end OpenFault

/-- What is found where the configuration should be. -/
inductive File where
  | unopened (f : OpenFault)
  | directory
  | octets (text : Octets)

inductive LoadFault where
  | unopened (f : OpenFault)
  | unreadable
  | invalid (f : Fault)
  deriving DecidableEq, Repr

def LoadFault.message : LoadFault → String
  | unopened f => "could not load config from file: " ++ f.message
  | unreadable => "could not parse config"
  | invalid f => "invalid config: " ++ f.message

def load : File → Except LoadFault GatewayConfig
  | .unopened f => .error (.unopened f)
  | .directory => .error .unreadable
  | .octets text =>
    match readRoot ofNode? text with
    | none => .error .unreadable
    | some c =>
      match c.fault? with
      | some f => .error (.invalid f)
      | none => .ok c

end GatewayConfig

end AuctionGate
