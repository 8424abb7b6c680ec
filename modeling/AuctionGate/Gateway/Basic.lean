import AuctionGate.Config.Basic
import AuctionGate.Dispatch.Network
import AuctionGate.Geo.Lookup
import AuctionGate.Pool.Resolve

/-!
# The gateway

A gateway is what its configuration describes: a dispatcher that calls partners, each host under a
breaker if so configured, and the client of the geolocation service, whose pool is refreshed
periodically until the gateway is shut down.
-/

namespace AuctionGate

structure Gateway where
  dispatcher : Dispatcher
  geolocation : Option Geolocation := none
  refresher : Option Refresher := none

namespace Gateway

/-- The name of the pool of the geolocation service. -/
def poolName : String := "geolocation"

def faultMessage (f : Pool.Fault) : String := "geolocation pool: " ++ f.message

def dispatcherOf (c : CallConfig) (network : Network) : Dispatcher :=
  { transport := network.transport (c.connectTimeout.map (·.toNat))
    guard := c.breaker.map fun config => { config }
    journal := if c.breaker.isSome then [.callsGuarded] else [] }

def refresherOf (c : PoolConfig) (now : Nat) : Refresher :=
  .spawn now (c.refreshIntervalSeconds.toNat * 1000)

/-- Fails only if an address of the pool does not resolve. -/
def build (c : GatewayConfig) (network : Network) (names : Net.NameService := .unknowing)
    (rules : Net.DomainRules := .plainOnly) : Except Pool.Fault Gateway :=
  let dispatcher := dispatcherOf c.calls network
  match c.geolocation with
  | none => .ok { dispatcher }
  | some g =>
    (Pool.resolve poolName g.pool.addresses names).map fun pool =>
      { dispatcher
        geolocation := some (.ofPool pool g.breaker g.path g.timeout.toNat rules)
        refresher := some (refresherOf g.pool 0) }

/-- What its parts have to tell, one part after the other. -/
def history (g : Gateway) : List Occurrence :=
  g.dispatcher.journal.history ++ (g.geolocation.map (·.watch.journal.history)).getD []

/-- The later of the clocks of its parts. -/
def now (g : Gateway) : Nat :=
  max g.dispatcher.now ((g.geolocation.map (·.watch.now)).getD 0)

/-- A tick of the refresher, which finds the pool owned by the client. -/
def refresh (g : Gateway) (t : Nat) : Gateway :=
  { g with
    geolocation := g.geolocation.map fun c =>
      { c with watch := (c.watch.elapse t).poolTurn Pool.refresh }
    refresher := g.refresher.map (·.rearm) }

/-- Time passes; each refresh happens at its own time. -/
def elapse (limit : Nat) (g : Gateway) : Gateway :=
  match _ : g.refresher.bind (·.next.filter (· ≤ limit)) with
  | some t => (g.refresh t).elapse limit
  | none =>
    { g with
      dispatcher := g.dispatcher.elapse limit
      geolocation := g.geolocation.map fun c => { c with watch := c.watch.elapse limit } }
termination_by g.refresher.elim 0 (·.left limit)
decreasing_by
  obtain ⟨f, hf, ht⟩ := Option.bind_eq_some_iff.1 ‹_›
  obtain ⟨hnext, hle⟩ := Option.filter_eq_some_iff.1 ht
  simp only [refresh, hf, Option.map_some, Option.elim_some]
  exact Refresher.left_rearm hnext (of_decide_eq_true hle)

/-- Brings the clocks of its parts together; whatever is due is done. -/
def tidy (g : Gateway) : Gateway := g.elapse g.now

/-- No refresh happens any more; all else goes on. -/
def shutdown (g : Gateway) : Gateway := { g with refresher := g.refresher.map (·.abort) }

end Gateway

end AuctionGate
