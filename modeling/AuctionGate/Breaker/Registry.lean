import AuctionGate.Breaker.Basic
import AuctionGate.Pool.Basic

/-!
# Breakers by key

A registry makes the breaker of a key on first use and never removes it. Observers hear of every
change of every breaker, in the order in which they were attached and before anything else
happens: a pool follows the breakers of its addresses, a recorder notes what it hears.

Steps that start a timer return it with the time at which it is due; whoever holds the clock
brings it back by `fire`, unless a later step stops it.
-/

namespace AuctionGate

inductive Observer where
  | pool
  | recorder
  | silent
  deriving DecidableEq, Repr

/-- What a recorder heard. -/
structure Notice where
  time : Nat
  key : String
  change : Breaker.Transition
  /-- The recorder's place among the observers. -/
  observer : Nat
  deriving DecidableEq, Repr

/-- A breaker's timer, to be brought back when it is due. -/
structure Wakeup where
  due : Nat
  key : String
  timer : Breaker.Timer
  deriving DecidableEq, Repr

structure Registry where
  config : Breaker.Config
  observers : List Observer := []
  /-- In the order in which they were made. -/
  breakers : List (String × Breaker) := []
  pool : Option Pool := none
  /-- What the recorders heard, the latest first. -/
  notices : List Notice := []

/-- A registry after a step, what the journal is told, the key whose timer is stopped, and the timer
that is started after that. -/
structure Registry.Turn where
  registry : Registry
  told : List Occurrence := []
  stopped : Option String := none
  started : Option Wakeup := none

namespace Registry

def size (r : Registry) : Nat := r.breakers.length

def find? (r : Registry) (key : String) : Option Breaker :=
  (r.breakers.find? (·.1 = key)).map (·.2)

/-- The breaker of a key as it is or would be made. -/
def breaker (r : Registry) (key : String) : Breaker := (r.find? key).getD {}

/-- Makes the breaker of a key unless there is one. -/
def insertIfAbsent (r : Registry) (key : String) : Turn :=
  match r.find? key with
  | some _ => { registry := r }
  | none =>
    { registry := { r with breakers := r.breakers ++ [(key, {})] }
      told := [.breakerCreated key] }

/-- Looks for the breaker of a key, and makes it on a miss. -/
def get (r : Registry) (key : String) : Turn :=
  match r.find? key with
  | some _ => { registry := r }
  | none => r.insertIfAbsent key

def put (r : Registry) (key : String) (b : Breaker) : Registry :=
  { r with breakers := r.breakers.map fun (k, c) => if k = key then (k, b) else (k, c) }

/-- An operation on the pool among the observers. -/
def poolTurn (r : Registry) (f : Pool → Pool.Turn) : Turn :=
  match r.pool with
  | none => { registry := r }
  | some p =>
    let t := f p
    { registry := { r with pool := some t.pool }, told := t.told }

/-- One observer, with its place, hears of a transition. -/
def hear (r : Registry) (now : Nat) (key : String) (t : Breaker.Transition) (o : Observer × Nat) :
    Turn :=
  match o.1 with
  | .pool => r.poolTurn (·.hear key t)
  | .recorder => { registry := { r with notices := ⟨now, key, t, o.2⟩ :: r.notices } }
  | .silent => { registry := r }

/-- All observers hear of a transition, one after the other. -/
def hearAll (now : Nat) (key : String) (t : Breaker.Transition) :
    List (Observer × Nat) → Registry → Turn
  | [], r => { registry := r }
  | o :: os, r =>
    let first := r.hear now key t o
    let rest := hearAll now key t os first.registry
    { rest with told := first.told ++ rest.told }

/-- What the journal is told of a change. -/
def account (key : String) : Breaker.Change → Occurrence
  | .opened n => .breakerOpened key n.toNat
  | .halfOpened => .breakerHalfOpened key
  | .closed => .breakerClosed key
  | .forgiven n => .failuresForgiven key n.toNat

/-- The journal is told of a change, then the observers hear of it. -/
def announce (r : Registry) (now : Nat) (key : String) (c : Breaker.Change) : Turn :=
  match c.transition? with
  | some t =>
    let heard := hearAll now key t r.observers.zipIdx r
    { heard with told := account key c :: heard.told }
  | none => { registry := r, told := [account key c] }

/-- Carries out a step of the breaker of a key. -/
def carry (r : Registry) (now : Nat) (key : String) (s : Breaker.Step) : Turn :=
  let r := r.put key s.breaker
  let announced := match s.change with
    | some c => r.announce now key c
    | none => { registry := r }
  { announced with
    stopped := if s.stops then some key else none
    started := s.started.map fun (delay, timer) => ⟨now + delay.toNat, key, timer⟩ }

/-- Asks the breaker of a key to let a call through. -/
def allow (r : Registry) (key : String) : Turn × Option Breaker.Permit :=
  let got := r.get key
  match (got.registry.breaker key).allow with
  | some (p, b) => ({ got with registry := got.registry.put key b }, some p)
  | none => ({ got with told := got.told ++ [.callRejected key] }, none)

/-- Brings a call's result to the breaker of a key. -/
def settle (r : Registry) (now : Nat) (key : String) (p : Breaker.Permit) (succeeded : Bool) :
    Turn :=
  r.carry now key ((r.breaker key).settle r.config p succeeded)

/-- Brings a timer back to its breaker. -/
def fire (r : Registry) (now : Nat) (key : String) (t : Breaker.Timer) : Turn :=
  r.carry now key ((r.breaker key).fire t)

end Registry

end AuctionGate
