import AuctionGate.Auction.IdSet

/-!
# Partner errors

What went wrong with a partner, and the impressions it went wrong for. An error with no set of
impressions concerns none in particular.
-/

namespace AuctionGate

inductive PartnerError.Kind where
  | timeout
  | badInput
  | badServerResponse
  | generic
  deriving DecidableEq, Repr

namespace PartnerError.Kind

def all : List Kind := [timeout, badInput, badServerResponse, generic]

def name : Kind → String
  | timeout => "timeout"
  | badInput => "bad_input"
  | badServerResponse => "bad_server_response"
  | generic => "generic"

def ofName? (s : String) : Option Kind := all.find? (·.name = s)

end PartnerError.Kind

structure PartnerError where
  message : String
  kind : PartnerError.Kind
  impressionIds : Option IdSet := none
  deriving DecidableEq

/-- Puts an error down to a set of impressions, or to none in particular if the set is empty. -/
def PartnerError.tagged (e : PartnerError) (ids : IdSet) : PartnerError :=
  { e with impressionIds := if ids.isEmpty then none else some ids }

end AuctionGate
