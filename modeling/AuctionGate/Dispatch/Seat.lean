import AuctionGate.Dispatch.Gathering
import AuctionGate.Telemetry.Journal

/-!
# From outcomes to a seat

An adapter knows one partner: it builds the calls for an auction and reads bids out of answers.
`Adapter.seat` makes the partner's result from what its calls brought. A partner for which no call
was built has only the errors of building, or one that says there were none.
-/

namespace AuctionGate

structure Adapter where
  name : String
  build : Auction → List Call × List PartnerError
  read : Call → Http.Response → List Bid × List PartnerError

namespace Adapter

def nothingBuiltMessage : String :=
  "The bidder failed to generate any bid requests, but also failed to generate an error"

/-- The result without any call. -/
def emptySeat (buildErrors : List PartnerError) : SeatBid :=
  ⟨[], none, if buildErrors.isEmpty then [⟨nothingBuiltMessage, .generic, none⟩] else buildErrors⟩

def toldOfEmpty (a : Adapter) (buildErrors : List PartnerError) : List Occurrence :=
  (if buildErrors.isEmpty then [.nothingBuilt a.name] else []) ++ [.dispatchFinished a.name 0]

/-- What was read out of the answers, in the order of the calls. -/
def readings (a : Adapter) (calls : List (Call × Settled)) : List (List Bid × List PartnerError) :=
  calls.filterMap fun (c, s) => s.outcome.readable?.map (a.read c)

def traces (calls : List (Call × Settled)) : List Trace :=
  (calls.filter (·.2.attempted)).map fun (c, s) => Trace.of c s.outcome

/-- The result of a partner whose calls brought this. -/
def seat (a : Adapter) (auction : Auction) (buildErrors : List PartnerError) (debug : Bool)
    (calls : List (Call × Settled)) : SeatBid :=
  let readings := a.readings calls
  let bids := readings.flatMap (·.1)
  let reports := calls.map fun (c, s) => CallReport.mk c.impressionIds s.outcome.error?
  { bids
    trace := if debug then some (traces calls) else none
    errors := Correlation.correlate auction.impressionIds reports (bids.map (·.impressionId))
      buildErrors (readings.flatMap (·.2)) }

/-- What the journal is told of one call. -/
def toldOfCall (a : Adapter) (c : Call) (s : Settled) : List Occurrence :=
  (if s.attempted then [] else [.callSkipped a.name])
    ++ (s.outcome.error?.map fun e => .callFailed a.name c.request.uri.write e.kind.name).toList

def toldOfCalls (a : Adapter) (calls : List (Call × Settled)) (elapsed : Nat) : List Occurrence :=
  calls.flatMap (fun (c, s) => a.toldOfCall c s) ++ [.dispatchFinished a.name elapsed]

end Adapter

end AuctionGate
