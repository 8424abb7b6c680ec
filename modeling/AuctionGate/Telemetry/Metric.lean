/-!
# Metrics

Each metric has a name, a kind and a description. A series is a metric with its labels; the ledger
holds one reading a series, in the order in which the series were first touched.
-/

namespace AuctionGate

inductive Metric.Kind where
  | counter
  | gauge
  | histogram
  deriving DecidableEq, Repr

def Metric.Kind.name : Metric.Kind → String
  | .counter => "counter"
  | .gauge => "gauge"
  | .histogram => "histogram"

inductive Metric where
  | dispatchDuration
  | callErrors
  | callsSkipped
  | breakerOpened
  | breakerHalfOpened
  | breakerClosed
  | breakerRejected
  | addressRemoved
  | addressAdded
  | poolRefreshed
  | poolLive
  | lookupDuration
  deriving DecidableEq, Repr

namespace Metric

def ofDispatch : List Metric := [dispatchDuration, callErrors, callsSkipped]

def ofBreakers : List Metric := [breakerOpened, breakerHalfOpened, breakerClosed, breakerRejected]

def ofPools : List Metric :=
  [addressRemoved, addressAdded, poolRefreshed, poolLive, lookupDuration]

def all : List Metric := ofDispatch ++ ofBreakers ++ ofPools

def name : Metric → String
  | dispatchDuration => "bidder.request.duration"
  | callErrors => "bidder.call.errors"
  | callsSkipped => "bidder.call.skipped"
  | breakerOpened => "circuit_breaker.opened"
  | breakerHalfOpened => "circuit_breaker.half_opened"
  | breakerClosed => "circuit_breaker.closed"
  | breakerRejected => "circuit_breaker.rejected"
  | addressRemoved => "address_pool.removed"
  | addressAdded => "address_pool.added"
  | poolRefreshed => "address_pool.refreshed"
  | poolLive => "address_pool.live"
  | lookupDuration => "geolocation.lookup.duration"

def kind : Metric → Kind
  | dispatchDuration => .histogram
  | lookupDuration => .histogram
  | poolLive => .gauge
  | _ => .counter

def description : Metric → String
  | dispatchDuration => "Time to dispatch one partner in seconds. Tagged with partner."
  | callErrors => "Outbound calls that ended in an error. Tagged with partner, kind."
  | callsSkipped => "Outbound calls never issued because the auction budget was spent."
  | breakerOpened => "Number of transitions into the open state. Tagged with key."
  | breakerHalfOpened => "Number of transitions into the half-open state. Tagged with key."
  | breakerClosed => "Number of transitions back into the closed state. Tagged with key."
  | breakerRejected => "Number of calls vetoed without being attempted. Tagged with key."
  | addressRemoved => "Addresses taken out of rotation. Tagged with pool."
  | addressAdded => "Addresses put back into rotation. Tagged with pool."
  | poolRefreshed => "Number of full resets of the live set. Tagged with pool."
  | poolLive => "Number of addresses currently in rotation. Tagged with pool."
  | lookupDuration => "Geolocation lookup duration in seconds. Tagged with status."

end Metric

/-- A metric with the labels it is tagged with. -/
structure Series where
  metric : Metric
  labels : List (String × String)
  deriving DecidableEq, Repr

/-- `name{label=value,label=value}` -/
def Series.text (s : Series) : String :=
  s.metric.name ++ "\x7b" ++ ",".intercalate (s.labels.map fun (l, v) => l ++ "=" ++ v) ++ "\x7d"

inductive Reading where
  | count (n : Nat)
  | level (n : Nat)
  | samples (ms : List Nat)
  deriving DecidableEq, Repr

/-- How a series is touched: counted up by one, set, or given one more sample. -/
inductive Touch where
  | increment
  | set (n : Nat)
  | sample (ms : Nat)
  deriving DecidableEq, Repr

/-- The reading after a touch. -/
def Touch.apply : Touch → Option Reading → Reading
  | .increment, some (.count n) => .count (n + 1)
  | .increment, _ => .count 1
  | .set n, _ => .level n
  | .sample t, some (.samples ts) => .samples (ts ++ [t])
  | .sample t, _ => .samples [t]

abbrev Ledger := List (Series × Reading)

namespace Ledger

def read? (l : Ledger) (s : Series) : Option Reading :=
  (l.find? (·.1 = s)).map (·.2)

def touch (s : Series) (t : Touch) : Ledger → Ledger
  | [] => [(s, t.apply none)]
  | (k, r) :: rest => if k = s then (k, t.apply (some r)) :: rest else (k, r) :: touch s t rest

end Ledger

end AuctionGate
