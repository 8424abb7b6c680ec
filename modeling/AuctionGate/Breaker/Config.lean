/-!
# What a breaker is told

Times are milliseconds. `Config.fault?` names the first setting with which a breaker would be of
no use; a breaker itself works with any values.
-/

namespace AuctionGate.Breaker

structure Config where
  /-- Failures in a row that open the circuit. -/
  openingThreshold : UInt32
  /-- How long after the first of them the failures of a run are forgiven. -/
  openingWindow : UInt64
  /-- How long the circuit stays open before a probe is let through. -/
  closingDelay : UInt64
  deriving DecidableEq, Repr

namespace Config

inductive Fault where
  | openingThreshold
  | openingWindow
  | closingDelay
  deriving DecidableEq, Repr

def Fault.message : Fault → String
  | openingThreshold => "opening threshold must be at least 1"
  | openingWindow => "opening window must be greater than 0"
  | closingDelay => "closing delay must be greater than 0"

/-- The first fault of a configuration. -/
def fault? (c : Config) : Option Fault :=
  if c.openingThreshold = 0 then some .openingThreshold
  else if c.openingWindow = 0 then some .openingWindow
  else if c.closingDelay = 0 then some .closingDelay
  else none

end Config

end AuctionGate.Breaker
