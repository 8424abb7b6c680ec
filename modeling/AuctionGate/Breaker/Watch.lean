import AuctionGate.Agenda
import AuctionGate.Breaker.Registry

/-!
# Breakers on a clock

A watch holds a registry with the time, the timers that run and the calls that are out. Time moves
only by `advance`, and every timer runs out at its own time.
-/

namespace AuctionGate

/-- A call that was let through and has not come back. -/
structure InFlight where
  id : String
  key : String
  permit : Breaker.Permit

structure Watch where
  registry : Registry
  now : Nat := 0
  timers : Agenda (String × Breaker.Timer) := {}
  calls : List InFlight := []
  journal : Journal := []

namespace Watch

/-- What a registry's step does to the timers. -/
def edit (t : Registry.Turn) : Agenda.Edit (String × Breaker.Timer) where
  strikes u := t.stopped = some u.1
  enters := t.started.toList.map fun u => (u.due, (u.key, u.timer))

/-- Takes over what a registry's step leaves. -/
def hold (w : Watch) (t : Registry.Turn) : Watch :=
  { w with
    registry := t.registry
    journal := w.journal.note t.told
    timers := w.timers.edit (edit t) }

def get (w : Watch) (key : String) : Watch := w.hold (w.registry.get key)

/-- Lets a call through or vetoes it. -/
def allow (w : Watch) (key : String) : Watch × Option Breaker.Permit :=
  let (t, p) := w.registry.allow key
  (w.hold t, p)

def settle (w : Watch) (key : String) (p : Breaker.Permit) (succeeded : Bool) : Watch :=
  w.hold (w.registry.settle w.now key p succeeded)

/-- A call that comes back at once; the answer says whether it was let through. -/
def call (w : Watch) (key : String) (succeeds : Bool) : Watch × Bool :=
  match w.allow key with
  | (w, none) => (w, false)
  | (w, some p) => (w.settle key p succeeds, true)

/-- As many calls, with no timer in between; the answer counts those let through. -/
def repeatCall (w : Watch) (key : String) (succeeds : Bool) : Nat → Watch × Nat
  | 0 => (w, 0)
  | n + 1 =>
    let (w, through) := w.call key succeeds
    let (w, count) := w.repeatCall key succeeds n
    (w, if through then count + 1 else count)

/-- Sends a call out. -/
def begin (w : Watch) (key id : String) : Watch × Bool :=
  match w.allow key with
  | (w, none) => (w, false)
  | (w, some p) => ({ w with calls := w.calls ++ [⟨id, key, p⟩] }, true)

/-- A call comes back, or is given up, which counts as a failure. -/
def finish? (w : Watch) (id : String) (succeeded : Bool) : Option Watch :=
  (w.calls.find? (·.id = id)).map fun c =>
    { w with calls := w.calls.eraseP (·.id = id) }.settle c.key c.permit succeeded

/-- Gives up every call that is out, in the order in which they were sent. -/
def abandon (w : Watch) : Watch :=
  w.calls.foldl (fun w c => w.settle c.key c.permit false) { w with calls := [] }

/-- A timer runs out at its time. -/
def ring (due : Nat) (t : String × Breaker.Timer) (s : Registry × Journal) :
    (Registry × Journal) × Agenda.Edit (String × Breaker.Timer) :=
  let turn := s.1.fire due t.1 t.2
  ((turn.registry, s.2.note turn.told), edit turn)

/-- The timers due by a time run out. -/
def elapse (w : Watch) (limit : Nat) : Watch :=
  let (timers, registry, journal) := w.timers.run ring limit (w.registry, w.journal)
  { w with registry, journal, timers, now := limit }

def advance (w : Watch) (ms : Nat) : Watch := w.elapse (w.now + ms)

/-- The timers that are due already run out. -/
def tidy (w : Watch) : Watch := w.elapse w.now

/-- An operation on the pool that the registry drives. -/
def poolTurn (w : Watch) (f : Pool → Pool.Turn) : Watch := w.hold (w.registry.poolTurn f)

end Watch

end AuctionGate
