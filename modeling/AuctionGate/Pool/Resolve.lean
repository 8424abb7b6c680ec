import AuctionGate.Net.SocketAddress
import AuctionGate.Pool.Refresh

/-!
# Pools from configured addresses

A pool is made of at least one address, and every address has to resolve.
-/

namespace AuctionGate.Pool

inductive Fault where
  | empty
  | unresolvable (address : String) (cause : Net.SocketAddress.Fault)
  deriving DecidableEq, Repr

def Fault.message : Fault → String
  | empty => "no addresses configured"
  | unresolvable a cause => "could not resolve address " ++ a ++ ": " ++ cause.message

/-- The first address that does not resolve. -/
def firstFault? (names : Net.NameService) : List String → Option Fault
  | [] => none
  | a :: rest =>
    match Net.SocketAddress.resolve names a with
    | .error cause => some (.unresolvable a cause)
    | .ok _ => firstFault? names rest

def resolve (name : String) (addresses : List String)
    (names : Net.NameService := .unknowing) : Except Fault Pool :=
  if addresses.isEmpty then .error .empty
  else
    match firstFault? names addresses with
    | some f => .error f
    | none => .ok (ofAddresses name addresses)

end AuctionGate.Pool
