import AuctionGate.Breaker.Basic
import AuctionGate.Telemetry.Journal

/-!
# Address pools

A pool holds the configured addresses of one service, without repetitions, and those of them that
are in rotation. Each operation gives the pool after it, its answer, and what it tells the journal.
-/

namespace AuctionGate

structure Pool where
  name : String
  configured : List String
  /-- In rotation; the order is that of drawing by index. -/
  live : List String
  deriving DecidableEq, Repr

/-- Each item once, where it stood first. -/
def dedup (l : List String) : List String :=
  l.foldl (fun acc a => if a ∈ acc then acc else acc ++ [a]) []

/-- The last item moves into the place of the one removed. -/
def swapRemove (a : String) (l : List String) : List String :=
  match l.getLast? with
  | none => []
  | some z => if a ∈ l then (l.replace a z).dropLast else l

namespace Pool

structure Turn where
  pool : Pool
  answer : Bool
  told : List Occurrence
  deriving DecidableEq, Repr

def ofAddresses (name : String) (addresses : List String) : Pool :=
  ⟨name, dedup addresses, dedup addresses⟩

/-- Takes an address out of rotation; the answer says whether it was in. -/
def remove (p : Pool) (a : String) : Turn :=
  if a ∈ p.live then
    let live := swapRemove a p.live
    ⟨{ p with live }, true, [.addressRemoved p.name a live.length]⟩
  else ⟨p, false, []⟩

/-- Puts a configured address back into rotation; the answer says whether it was out. -/
def add (p : Pool) (a : String) : Turn :=
  if a ∉ p.configured then ⟨p, false, [.addressIgnored p.name a]⟩
  else if a ∈ p.live then ⟨p, false, []⟩
  else
    let live := p.live ++ [a]
    ⟨{ p with live }, true, [.addressAdded p.name a live.length]⟩

/-- Puts every configured address into rotation. -/
def refresh (p : Pool) : Turn :=
  ⟨{ p with live := p.configured }, true,
    [.poolRefreshed p.name p.live.length p.configured.length]⟩

/-- Follows the breaker of an address: out when it opens, in again when it is half open. -/
def hear (p : Pool) (a : String) : Breaker.Transition → Turn
  | .opened => p.remove a
  | .halfOpened => p.add a
  | .closed => ⟨p, false, []⟩

/-- The live address that a draw picks. -/
def draw? (p : Pool) (draw : Nat) : Option String := p.live[draw % p.live.length]?

/-- The drawing fails exactly when nothing is live. -/
def noAddressMessage (p : Pool) : String := "no address available for " ++ p.name

end Pool

end AuctionGate
