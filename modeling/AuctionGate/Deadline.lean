/-!
# Deadlines

A deadline is a time, shared by all calls of an auction and only ever read.
-/

namespace AuctionGate

structure Deadline where
  time : Nat
  deriving DecidableEq, Repr

namespace Deadline

def after (now budget : Nat) : Deadline := ⟨now + budget⟩

/-- The time left, zero once the deadline has passed. -/
def remaining (d : Deadline) (now : Nat) : Nat := d.time - now

def expired (d : Deadline) (now : Nat) : Bool := d.remaining now = 0

end Deadline

end AuctionGate
