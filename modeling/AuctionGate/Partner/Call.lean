import AuctionGate.Auction.Bid
import AuctionGate.Dispatch.Correlation
import AuctionGate.Http.Message

/-!
# Calls to partners

A call is a request with the impressions it carries. Its outcome is a response, a failure of the
transport, or a timeout. Only the statuses 200 and 204 are answers; a call with another outcome
yields one error.
-/

namespace AuctionGate

structure Call where
  request : Http.Request
  impressionIds : List String

inductive TransportFailure.Kind where
  | connectTimeout
  | circuitOpen
  | other
  deriving DecidableEq, Repr

structure TransportFailure where
  kind : TransportFailure.Kind
  message : String
  deriving DecidableEq, Repr

inductive Outcome where
  | response (r : Http.Response)
  | failure (f : TransportFailure)
  | timeout
  deriving DecidableEq, Repr

namespace Outcome

def response? : Outcome → Option Http.Response
  | response r => some r
  | _ => none

def isResponse (o : Outcome) : Bool := o.response?.isSome

/-- The error of a call, unless it was answered. -/
def error? : Outcome → Option PartnerError
  | response r =>
    if r.status = 200 ∨ r.status = 204 then none
    else
      let message := "Unexpected status code: " ++ toString r.status
        ++ ". Run with request.debug = 1 for more info"
      some ⟨message, if r.status = 400 then .badInput else .badServerResponse, none⟩
  | timeout => some ⟨"Timed out", .timeout, none⟩
  | failure f => some ⟨f.message, if f.kind = .connectTimeout then .timeout else .generic, none⟩

/-- The response whose body holds bids. -/
def readable? : Outcome → Option Http.Response
  | response r => if r.status = 200 then some r else none
  | _ => none

end Outcome

/-- What a debugging reader is shown of a call. -/
structure Trace where
  uri : String
  requestBody : String
  status : Option Nat
  responseBody : Option String
  deriving DecidableEq, Repr

def Trace.of (c : Call) (o : Outcome) : Trace :=
  ⟨c.request.uri.write, Utf8.decodeLossy c.request.body, o.response?.map (·.status),
    o.response?.map fun r => Utf8.decodeLossy r.body⟩

/-- What a partner made of one auction. -/
structure SeatBid where
  bids : List Bid
  trace : Option (List Trace) := none
  errors : List PartnerError

end AuctionGate
