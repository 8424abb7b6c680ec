import AuctionGate.Partner.Call

/-!
# Gathering outcomes

The calls of a dispatch come back in any order, each with its place. `gather` puts what they bring
in the order of the calls. A call that died ends the gathering.
-/

namespace AuctionGate

/-- What a call brought; it was not attempted if no time was left when its turn came. -/
structure Settled where
  outcome : Outcome
  attempted : Bool
  deriving DecidableEq

/-- How a call ended. -/
inductive Ended where
  | settled (s : Settled)
  | died
  deriving DecidableEq

/-- A host is up that answered with a response, whatever its status. -/
def Ended.succeeded : Ended → Bool
  | settled s => s.outcome.isResponse
  | died => false

structure Completion where
  index : Nat
  ended : Ended

inductive DispatchFault where
  | callDied
  | missing (index : Nat)
  deriving DecidableEq

namespace Gathering

/-- Puts each completion in its place. -/
def place (slots : List (Option Settled)) : List Completion →
    Except DispatchFault (List (Option Settled))
  | [] => .ok slots
  | c :: cs =>
    match c.ended with
    | .died => .error .callDied
    | .settled s => place (slots.set c.index (some s)) cs

/-- All places, which have to be filled; the first is that of call `i`. -/
def filled (i : Nat) : List (Option Settled) → Except DispatchFault (List Settled)
  | [] => .ok []
  | none :: _ => .error (.missing i)
  | some s :: rest => (filled (i + 1) rest).map (s :: ·)

/-- What `n` calls brought, in their order. -/
def gather (n : Nat) (cs : List Completion) : Except DispatchFault (List Settled) :=
  (place (List.replicate n none) cs).bind (filled 0)

end Gathering

end AuctionGate
