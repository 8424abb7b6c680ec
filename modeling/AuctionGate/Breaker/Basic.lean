import AuctionGate.Breaker.Config

/-!
# Circuit breakers

A closed breaker lets calls through and counts failures in a row; at the threshold it opens and
vetoes every call. After the closing delay it is half open: one call, the probe, is let through,
and its result closes the breaker or opens it again.

A breaker holds no clock. A step may start a timer: when it runs out, `fire` is given the timer
back. A step that replaces or cancels the timer stops the one that runs and begins a new epoch.
Each timer carries the epoch in which it was started, so one that ran out before it could be
stopped does nothing.
-/

namespace AuctionGate

namespace Breaker

inductive State where
  | closed
  | opened
  | halfOpen
  deriving DecidableEq, Repr

/-- What a breaker does when a timer runs out. -/
inductive Action where
  | forgive
  | awaitProbe
  deriving DecidableEq, Repr

structure Timer where
  epoch : UInt64
  action : Action
  deriving DecidableEq, Repr

/-- Leave for one call. -/
structure Permit where
  probe : Bool
  deriving DecidableEq, Repr

/-- A change of state, which observers hear of. -/
inductive Transition where
  | opened
  | halfOpened
  | closed
  deriving DecidableEq, Repr

/-- A transition, or a run of failures forgiven. -/
inductive Change where
  | opened (failures : UInt32)
  | halfOpened
  | closed
  | forgiven (failures : UInt32)
  deriving DecidableEq, Repr

def Change.transition? : Change → Option Transition
  | opened _ => some .opened
  | halfOpened => some .halfOpened
  | closed => some .closed
  | forgiven _ => none

end Breaker

structure Breaker where
  state : Breaker.State := .closed
  /-- Failures in the current run. -/
  failures : UInt32 := 0
  /-- A probe is on its way. -/
  probing : Bool := false
  epoch : UInt64 := 0
  deriving DecidableEq, Repr

namespace Breaker

/-- A breaker after a step, whether the timer that runs is stopped, the timer started with its
delay, and the change made. -/
structure Step where
  breaker : Breaker
  stops : Bool := false
  started : Option (UInt64 × Timer) := none
  change : Option Change := none
  deriving DecidableEq, Repr

/-- Leave for a call, unless the circuit is open or the probe is out. -/
def allow (b : Breaker) : Option (Permit × Breaker) :=
  match b.state with
  | .closed => some (⟨false⟩, b)
  | .opened => none
  | .halfOpen => if b.probing then none else some (⟨true⟩, { b with probing := true })

/-- Begins a new epoch. -/
def renew (b : Breaker) : Breaker := { b with epoch := b.epoch + 1 }

/-- Cancels the timer. -/
def cancel (b : Breaker) (change : Option Change) : Step :=
  { breaker := b.renew, stops := true, change }

/-- Replaces the timer. -/
def rearm (b : Breaker) (delay : UInt64) (a : Action) (change : Option Change) : Step :=
  { breaker := b.renew, stops := true, started := some (delay, ⟨b.renew.epoch, a⟩), change }

def trip (c : Config) (b : Breaker) : Step :=
  { b with state := .opened }.rearm c.closingDelay .awaitProbe (some (.opened b.failures))

def close (b : Breaker) : Step := { b with state := .closed, failures := 0 }.cancel (some .closed)

/-- One more failure of a closed breaker. -/
def fail (c : Config) (b : Breaker) : Step :=
  let b := { b with failures := b.failures + 1 }
  if c.openingThreshold ≤ b.failures then b.trip c
  else if b.failures = 1 then b.rearm c.openingWindow .forgive none
  else { breaker := b }

/-- Takes the result of an admitted call. Only the probe counts while the breaker is half open,
and no call counts that comes back to an open breaker. -/
def settle (c : Config) (p : Permit) (succeeded : Bool) (b : Breaker) : Step :=
  if p.probe then
    let b := { b with probing := false }
    if b.state ≠ .halfOpen then { breaker := b }
    else if succeeded then b.close
    else b.trip c
  else if b.state ≠ .closed then { breaker := b }
  else if succeeded then { b with failures := 0 }.cancel none
  else b.fail c

/-- A timer runs out. -/
def fire (t : Timer) (b : Breaker) : Step :=
  if b.epoch ≠ t.epoch then { breaker := b }
  else
    match t.action, b.state with
    | .forgive, .closed =>
      { breaker := { b with failures := 0 }, change := some (.forgiven b.failures) }
    | .awaitProbe, .opened =>
      { breaker := { b with state := .halfOpen, probing := false }, change := some .halfOpened }
    | _, _ => { breaker := b }

end Breaker

end AuctionGate
