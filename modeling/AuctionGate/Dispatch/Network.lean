import AuctionGate.Dispatch.Flight
import AuctionGate.Partner.Exchange

/-!
# Calls over a network

A transport that has an exchange with a peer for each request. A request is sent only if its URI
says where to.
-/

namespace AuctionGate

/-- What the peer of a request does. -/
abbrev Network := Http.Request → Timeline

/-- Tunnels are asked for by authority alone, everything else by an absolute URI. -/
def Http.Request.isAddressed (r : Http.Request) : Bool :=
  r.uri.authority.isSome && (r.uri.scheme.isSome || r.method.name == "CONNECT")

def unaddressed : TransportFailure := ⟨.other, "client error (UserAbsoluteUriRequired)"⟩

namespace Network

/-- No connection comes about. -/
def unreachable : Network := fun _ =>
  .refused [⟨"tcp connect error", false⟩, ⟨"Network is unreachable (os error 101)", false⟩]

def exchange (n : Network) (connectTimeout : Option Nat) (r : Http.Request) (timeout : Nat) :
    Exchange.Settlement :=
  if r.isAddressed then Exchange.execute ((n r).connectWithin connectTimeout) timeout
  else (.failure unaddressed, 0)

def transport (n : Network) (connectTimeout : Option Nat) : Transport := fun _ r timeout =>
  let (outcome, elapsed) := n.exchange connectTimeout r timeout
  ⟨some elapsed, .outcome outcome⟩

end Network

end AuctionGate
