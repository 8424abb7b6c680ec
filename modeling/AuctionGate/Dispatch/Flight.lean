import AuctionGate.Breaker.Watch
import AuctionGate.Deadline
import AuctionGate.Dispatch.Seat

/-!
# Dispatches on a clock

All calls of a dispatch are issued one after the other before any time passes. A transport reacts
to a request after some delay, or never; at the deadline a call is cut. So the end of a call is
known when it has been issued, and a dispatch ends with its last call, or at once when a call
dies, and then the calls still out are cancelled. Cancelling takes effect at once: nothing waits
for such a call any more, and it is over when the dispatch is.

With a guard, each call asks the breaker of its host for leave. It gives the leave back when it
ends, as a success if a response came and else as a failure, which a cancelled call is too. What
comes back goes through the breaker, which knows a response and anything else.
-/

namespace AuctionGate

/-- How a transport ends a call that is not cut. -/
inductive Ending where
  | outcome (o : Outcome)
  | fault
  deriving DecidableEq

structure Reaction where
  /-- None if it never comes. -/
  delay : Option Nat
  ending : Ending
  deriving DecidableEq

/-- Why a breaker gives back no response. -/
inductive BreakerFault where
  | opened
  | inner (failed : Outcome)
  deriving DecidableEq

namespace Outcome

/-- An outcome as a breaker takes it. -/
def judged : Outcome → Except Outcome Http.Response
  | response r => .ok r
  | failed => .error failed

/-- The outcome of a call by what its breaker gives back. -/
def ofBreaker : Except BreakerFault Http.Response → Outcome
  | .ok r => response r
  | .error (.inner failed) => failed
  | .error .opened => failure ⟨.circuitOpen, "open circuit"⟩

/-- An outcome that has gone through a breaker. -/
def relayed (o : Outcome) : Outcome := ofBreaker (o.judged.mapError .inner)

end Outcome

def Ending.relayed : Ending → Ending
  | outcome o => .outcome o.relayed
  | fault => .fault

def Reaction.relayed (r : Reaction) : Reaction := { r with ending := r.ending.relayed }

/-- Reacts to a request and its timeout, knowing all earlier requests, the latest first. -/
abbrev Transport := List Http.Request → Http.Request → Nat → Reaction

def Ending.ended : Ending → Ended
  | outcome o => .settled ⟨o, true⟩
  | fault => .died

/-- After how long a call ends, and how, when it is cut after `remaining`. -/
def Reaction.cut (r : Reaction) (remaining : Nat) : Nat × Ended :=
  match r.delay.filter (· ≤ remaining) with
  | some t => (t, r.ending.ended)
  | none => (remaining, .settled ⟨.timeout, true⟩)

/-- What a transport was handed. -/
structure Sent where
  request : Http.Request
  timeout : Nat
  deriving DecidableEq

/-- A call that was cancelled, by its place in its dispatch and its request. -/
structure Aborted where
  time : Nat
  index : Nat
  request : Http.Request
  deriving DecidableEq

/-- Leave of the breaker of a key. -/
structure Leave where
  key : String
  permit : Breaker.Permit
  deriving DecidableEq

/-- A call that has been issued. -/
structure Airborne where
  index : Nat
  finish : Nat
  ended : Ended
  /-- The leave it has yet to give back. -/
  leave : Option Leave
  deriving DecidableEq

/-- What falls due: a timer of the breaker of a key, or the end of a call. -/
inductive Job where
  | timer (key : String) (t : Breaker.Timer)
  | giveBack (l : Leave) (succeeded : Bool)
  deriving DecidableEq

def Job.timerKey? : Job → Option String
  | timer key _ => some key
  | giveBack .. => none

/-- A dispatch to be done. -/
structure Errand where
  adapter : Adapter
  auction : Auction
  deadline : Deadline
  debug : Bool

/-- What the journal is told of an errand without calls, which ends at once. -/
def Errand.toldIfEmpty (e : Errand) : List Occurrence :=
  let (calls, buildErrors) := e.adapter.build e.auction
  if calls.isEmpty then e.adapter.toldOfEmpty buildErrors else []

/-- An errand whose calls have been issued. -/
structure Flight where
  errand : Errand
  start : Nat
  calls : List Call
  buildErrors : List PartnerError
  airborne : List Airborne

namespace Flight

/-- The earliest death of a call. -/
def fault? (f : Flight) : Option Nat :=
  ((f.airborne.filter (·.ended = .died)).map (·.finish)).min?

/-- The time at which the dispatch ends. -/
def finish (f : Flight) : Nat :=
  match f.fault? with
  | some t => t
  | none => (f.airborne.map (·.finish)).foldl max f.start

/-- The calls in the order in which they come back. -/
def completions (f : Flight) : List Completion :=
  (f.airborne.mergeSort fun a b => a.finish ≤ b.finish).map fun a => ⟨a.index, a.ended⟩

def gathered (f : Flight) : Except DispatchFault (List Settled) :=
  Gathering.gather f.calls.length f.completions

def elapsed (f : Flight) : Nat := f.finish - f.start

def result (f : Flight) : Except DispatchFault SeatBid :=
  if f.calls.isEmpty then .ok (Adapter.emptySeat f.buildErrors)
  else f.gathered.map fun settled =>
    f.errand.adapter.seat f.errand.auction f.buildErrors f.errand.debug (f.calls.zip settled)

/-- What the journal is told when the last call ends. -/
def told (f : Flight) : List Occurrence :=
  match f.gathered with
  | .ok settled => f.errand.adapter.toldOfCalls (f.calls.zip settled) f.elapsed
  | .error _ => [.callDied]

/-- The leaves given back when their calls end. -/
def returns (f : Flight) : List (Nat × Job) :=
  (f.airborne.filter (·.finish ≤ f.finish)).filterMap fun a =>
    a.leave.map fun l => (a.finish, .giveBack l a.ended.succeeded)

/-- The calls that are still out when the dispatch ends. -/
def unfinished (f : Flight) : List (Call × Airborne) :=
  (f.calls.zip f.airborne).filter (f.finish < ·.2.finish)

end Flight

structure Dispatcher where
  transport : Transport
  /-- One breaker a host. -/
  guard : Option Registry := none
  now : Nat := 0
  agenda : Agenda Job := {}
  /-- The latest first. -/
  sent : List Sent := []
  journal : Journal := []
  /-- The latest first. -/
  aborted : List Aborted := []

namespace Dispatcher

/-- A host is known by the authority of the URI. -/
def hostKey (r : Http.Request) : String := r.uri.authority.getD ""

def openCircuit : Outcome := .ofBreaker (.error .opened)

/-- What a step of the guard does to the agenda. -/
def edit (t : Registry.Turn) : Agenda.Edit Job where
  strikes j := t.stopped.isSome && j.timerKey? = t.stopped
  enters := t.started.toList.map fun u => (u.due, .timer u.key u.timer)

/-- Takes over what a step of the guard leaves. -/
def hold (d : Dispatcher) (t : Registry.Turn) : Dispatcher :=
  { d with
    guard := some t.registry
    journal := d.journal.note t.told
    agenda := d.agenda.edit (edit t) }

/-- Asks for leave to call a host; none if the call is vetoed. -/
def ask (d : Dispatcher) (r : Http.Request) : Dispatcher × Option (Option Leave) :=
  match d.guard with
  | none => (d, some none)
  | some g =>
    let (t, p) := g.allow (hostKey r)
    (d.hold t, p.map fun p => some ⟨hostKey r, p⟩)

/-- Gives a leave back at a time. -/
def giveBack (d : Dispatcher) (time : Nat) (l : Leave) (succeeded : Bool) : Dispatcher :=
  match d.guard with
  | none => d
  | some g => d.hold (g.settle time l.key l.permit succeeded)

def send (d : Dispatcher) (r : Http.Request) (timeout : Nat) : Dispatcher × Reaction :=
  ({ d with sent := ⟨r, timeout⟩ :: d.sent }, d.transport (d.sent.map (·.request)) r timeout)

/-- Issues a call. One that ends at once gives its leave back at once. -/
def issue (d : Dispatcher) (deadline : Deadline) (index : Nat) (c : Call) :
    Dispatcher × Airborne :=
  let remaining := deadline.remaining d.now
  if remaining = 0 then (d, ⟨index, d.now, .settled ⟨.timeout, false⟩, none⟩)
  else
    match d.ask c.request with
    | (d, none) => (d, ⟨index, d.now, .settled ⟨openCircuit, true⟩, none⟩)
    | (d, some leave) =>
      let (d, reaction) := d.send c.request remaining
      let (delay, ended) := (if leave.isSome then reaction.relayed else reaction).cut remaining
      match delay, leave with
      | 0, some l => (d.giveBack d.now l ended.succeeded, ⟨index, d.now, ended, none⟩)
      | _, _ => (d, ⟨index, d.now + delay, ended, leave⟩)

def issueAll (d : Dispatcher) (deadline : Deadline) : Nat → List Call → Dispatcher × List Airborne
  | _, [] => (d, [])
  | i, c :: cs =>
    let (d, a) := d.issue deadline i c
    let (d, as) := d.issueAll deadline (i + 1) cs
    (d, a :: as)

/-- Issues the calls of an errand. -/
def launch (d : Dispatcher) (e : Errand) : Dispatcher × Flight :=
  let (calls, buildErrors) := e.adapter.build e.auction
  let (d', airborne) := d.issueAll e.deadline 0 calls
  (d', ⟨e, d.now, calls, buildErrors, airborne⟩)

def launchAll (d : Dispatcher) : List Errand → Dispatcher × List Flight
  | [] => (d, [])
  | e :: es =>
    let (d, f) := d.launch e
    let (d, fs) := d.launchAll es
    (d, f :: fs)

/-- Does one job at its time. -/
def work (due : Nat) (j : Job) (s : Option Registry × Journal) :
    (Option Registry × Journal) × Agenda.Edit Job :=
  match s.1 with
  | none => (s, {})
  | some g =>
    let t := match j with
      | .timer key t => g.fire due key t
      | .giveBack l succeeded => g.settle due l.key l.permit succeeded
    ((some t.registry, s.2.note t.told), edit t)

/-- Does all that is due by a time. -/
def elapse (d : Dispatcher) (limit : Nat) : Dispatcher :=
  let (agenda, guard, journal) := d.agenda.run work limit (d.guard, d.journal)
  { d with agenda, guard, journal, now := limit }

def advance (d : Dispatcher) (ms : Nat) : Dispatcher := d.elapse (d.now + ms)

/-- Cancels a call that is out. It gives its leave back as one that failed. -/
def cancel (d : Dispatcher) (time : Nat) (c : Call) (a : Airborne) : Dispatcher :=
  let d := match a.leave with
    | none => d
    | some l => d.giveBack time l false
  { d with aborted := ⟨time, a.index, c.request⟩ :: d.aborted }

/-- Lets time pass until a dispatch ends, and cancels the calls it leaves behind. -/
def land (d : Dispatcher) (f : Flight) : Dispatcher :=
  let d := d.elapse f.finish
  let d := f.unfinished.foldl (fun d x => d.cancel f.finish x.1 x.2) d
  { d with journal := d.journal.note f.told }

/-- Does errands side by side, and gives each one's result with the time it took. Those without
calls end first, and of the others the calls are entered ahead of the timers that were started
while they were issued. -/
def dispatchAll (d : Dispatcher) (es : List Errand) :
    Dispatcher × List (Except DispatchFault SeatBid × Nat) :=
  let known := d.agenda.entries
  let d := { d with journal := d.journal.note (es.flatMap Errand.toldIfEmpty) }
  let (d, flights) := d.launchAll es
  let (earlier, later) := d.agenda.entries.partition (known.contains ·)
  let d := { d with agenda := ⟨earlier ++ flights.flatMap (·.returns) ++ later⟩ }
  let late := flights.filter fun f => !f.calls.isEmpty
  let d := (late.mergeSort fun f g => f.finish ≤ g.finish).foldl land d
  (d.elapse d.now, flights.map fun f => (f.result, f.elapsed))

def dispatch (d : Dispatcher) (e : Errand) :
    Dispatcher × List (Except DispatchFault SeatBid × Nat) :=
  d.dispatchAll [e]

end Dispatcher

end AuctionGate
