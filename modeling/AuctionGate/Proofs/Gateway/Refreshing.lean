import AuctionGate.Config.Read
import AuctionGate.Gateway.Basic
import AuctionGate.Proofs.Pool.Ticking

/-!
# A gateway's refresher

A configuration that loads has a refresh interval above zero. Nothing bounds it from above, so the
first tick may be a time that no instant can tell, and then the refresher dies as it is spawned. In
every other case it outlives whatever time passes, and ticks once in each interval.
-/

namespace AuctionGate

/-! ## Time that passes piece by piece -/

namespace Refresher

/-- The refresher after time has passed up to each of the times. -/
def pass (f : Refresher) (times : List Nat) : Refresher := times.foldl elapse f

variable {now interval : Nat}

theorem pass_after (pos : 0 < interval) (times : List Nat) (t : Nat) :
    (after now pos (count now interval t)).pass times
      = after now pos (count now interval (times.foldl max t)) := by
  induction times generalizing t with
  | nil => rfl
  | cons limit rest ih => rw [pass, List.foldl_cons, elapse_count, ← pass, ih, List.foldl_cons]

theorem pass_ended (times : List Nat) : (ended interval).pass times = ended interval := by
  induction times with
  | nil => rfl
  | cons limit rest ih => rw [pass, List.foldl_cons, elapse_idle (idle_of_dead rfl), ← pass, ih]

/-- A refresher that can tell the time of its first tick is never lost to time; any other one is
dead from the start. -/
theorem pass_spawn (pos : 0 < interval) (times : List Nat) :
    (spawn now interval).pass times
      = if (now + interval) / 1000 ≤ maxInstantSeconds then
          after now pos (count now interval (times.foldl max now))
        else ended interval := by
  split_ifs with tells
  · rw [spawn_alive pos tells, ← @count_self now interval, pass_after]
  · rw [spawn_ended (Nat.lt_of_not_le tells), pass_ended]

end Refresher

/-! ## What loading checks -/

theorem PoolConfig.interval_pos {c : PoolConfig} (h : c.fault? = none) :
    0 < c.refreshIntervalSeconds.toNat := by
  by_contra zero
  have : c.refreshIntervalSeconds = 0 := UInt64.toNat.inj (by simpa using zero)
  simp only [fault?, this, ite_true] at h
  split at h <;> simp at h

/-- A refresher spawned at `now` can tell the time of its first tick. -/
def PoolConfig.Timely (c : PoolConfig) (now : Nat) : Prop :=
  now / 1000 + c.refreshIntervalSeconds.toNat ≤ maxInstantSeconds

instance (c : PoolConfig) (now : Nat) : Decidable (c.Timely now) :=
  inferInstanceAs (Decidable (_ ≤ _))

theorem PoolConfig.timely_iff {c : PoolConfig} {now : Nat} :
    c.Timely now ↔ (now + c.refreshIntervalSeconds.toNat * 1000) / 1000 ≤ maxInstantSeconds := by
  rw [Timely, Nat.add_mul_div_right _ _ (by omega)]

theorem GeolocationConfig.pool_faultless {c : GeolocationConfig} (h : c.fault? = none) :
    c.pool.fault? = none := by
  unfold fault? at h
  split at h <;> simp_all

theorem GatewayConfig.geolocation_faultless {c : GatewayConfig} {geo : GeolocationConfig}
    (h : c.fault? = none) (hg : c.geolocation = some geo) : geo.fault? = none := by
  unfold fault? at h
  split at h <;> simp_all

theorem GatewayConfig.faultless_of_load {file : File} {c : GatewayConfig}
    (h : load file = .ok c) : c.fault? = none := by
  cases file with
  | unopened f => simp [load] at h
  | directory => simp [load] at h
  | octets text =>
    simp only [load] at h
    split at h
    · simp at h
    · split at h
      · simp at h
      · next faultless => rwa [← Except.ok.inj h]

/-! ## A gateway as time passes -/

namespace Gateway

variable {c : GatewayConfig} {geo : GeolocationConfig} {network : Network} {g : Gateway}
  {names : Net.NameService} {rules : Net.DomainRules} {limit : Nat}

/-- The gateway after time has passed up to each of the times. -/
def pass (g : Gateway) (times : List Nat) : Gateway := times.foldl (fun g t => g.elapse t) g

/-- Whatever the refreshes do, the refresher goes on as it would alone. -/
theorem elapse_refresher (limit : Nat) (g : Gateway) :
    (g.elapse limit).refresher = g.refresher.map (·.elapse limit) := by
  fun_induction Gateway.elapse limit g with
  | case1 g t hdue ih =>
    obtain ⟨f, hf, ht⟩ := Option.bind_eq_some_iff.1 hdue
    obtain ⟨hnext, hle⟩ := Option.filter_eq_some_iff.1 ht
    rw [ih, refresh, hf, Option.map_some, Option.map_some, Option.map_some,
      Refresher.elapse_due hnext (of_decide_eq_true hle)]
  | case2 g hidle =>
    rcases hf : g.refresher with _ | f
    · rfl
    · have idle : f.Idle limit := by
        intro t ht
        simpa [hf, ht] using hidle
      rw [Option.map_some, Refresher.elapse_idle idle]

theorem pass_refresher (g : Gateway) (times : List Nat) :
    (g.pass times).refresher = g.refresher.map (·.pass times) := by
  induction times generalizing g with
  | nil => cases h : g.refresher <;> simp [pass, Refresher.pass, h]
  | cons limit rest ih =>
    rw [pass, List.foldl_cons, ← pass, ih, elapse_refresher, Option.map_map]
    rfl

/-- Without a refresher that is alive the pool is left to its breakers. -/
theorem pass_unrefreshed (times : List Nat)
    (dead : ∀ f, g.refresher = some f → f.next = none) :
    (g.pass times).geolocation
      = g.geolocation.map fun c => { c with watch := times.foldl Watch.elapse c.watch } := by
  induction times generalizing g with
  | nil => cases h : g.geolocation <;> simp [pass, h]
  | cons limit rest ih =>
    have idle : g.elapse limit = { g with
        dispatcher := g.dispatcher.elapse limit
        geolocation := g.geolocation.map fun c => { c with watch := c.watch.elapse limit } } := by
      rw [Gateway.elapse]
      split
      · rename_i hdue
        obtain ⟨f, hf, ht⟩ := Option.bind_eq_some_iff.1 hdue
        rw [dead f hf] at ht
        cases ht
      · rfl
    have still : ∀ f, (g.elapse limit).refresher = some f → f.next = none := by
      rw [idle]
      exact dead
    rw [pass, List.foldl_cons, ← pass, ih still, idle, Option.map_map]
    rfl

theorem build_refresher (h : build c network names rules = .ok g) :
    g.refresher = c.geolocation.map fun geo => refresherOf geo.pool 0 := by
  unfold build at h
  cases hg : c.geolocation with
  | none =>
    rw [hg] at h
    rw [← Except.ok.inj h]
    rfl
  | some geo =>
    simp only [hg] at h
    cases hp : Pool.resolve poolName geo.pool.addresses names with
    | error f => simp [hp, Except.map] at h
    | ok pool =>
      simp only [hp, Except.map, Except.ok.injEq] at h
      rw [← h]
      rfl

/-- A gateway whose configuration was loaded has a refresher exactly if it has a pool, and the
interval is never zero. If an instant can tell the time of its first tick, the refresher has ticked
once for each interval that is over, and is alive. Otherwise it never ticks, and nothing but its
breakers brings an address of the pool back. -/
theorem refresher_of_loaded {file : GatewayConfig.File} (loaded : GatewayConfig.load file = .ok c)
    (built : build c network names rules = .ok g) :
    (c.geolocation = none → ∀ times, (g.pass times).refresher = none)
      ∧ ∀ geo, c.geolocation = some geo →
        let interval := geo.pool.refreshIntervalSeconds.toNat * 1000
        ∃ pos : 0 < interval,
          (∀ times, (g.pass times).refresher = some ((refresherOf geo.pool 0).pass times))
          ∧ (∀ now times, geo.pool.Timely now → (refresherOf geo.pool now).pass times
              = .after now pos (Refresher.count now interval (times.foldl max now)))
          ∧ (∀ now times, ¬ geo.pool.Timely now →
              (refresherOf geo.pool now).pass times = .ended interval)
          ∧ (∀ times, ¬ geo.pool.Timely 0 → (g.pass times).geolocation
              = g.geolocation.map fun c => { c with watch := times.foldl Watch.elapse c.watch })
    := by
  have spawned := build_refresher built
  refine ⟨fun hnone times => by rw [pass_refresher, spawned, hnone]; rfl, fun geo hgeo => ?_⟩
  have seconds : 0 < geo.pool.refreshIntervalSeconds.toNat :=
    PoolConfig.interval_pos (GeolocationConfig.pool_faultless
      (GatewayConfig.geolocation_faultless (GatewayConfig.faultless_of_load loaded) hgeo))
  have pos : 0 < geo.pool.refreshIntervalSeconds.toNat * 1000 := Nat.mul_pos seconds (by omega)
  have dead : ∀ now times, ¬ geo.pool.Timely now → (refresherOf geo.pool now).pass times
      = .ended (geo.pool.refreshIntervalSeconds.toNat * 1000) := fun now times late => by
    rw [PoolConfig.timely_iff] at late
    rw [refresherOf, Refresher.pass_spawn pos, if_neg late]
  refine ⟨pos, fun times => by rw [pass_refresher, spawned, hgeo]; rfl, ?_, dead, ?_⟩
  · intro now times timely
    rw [PoolConfig.timely_iff] at timely
    rw [refresherOf, Refresher.pass_spawn pos, if_pos timely]
  · intro times late
    refine pass_unrefreshed times fun f hf => ?_
    rw [spawned, hgeo] at hf
    rw [← Option.some.inj hf]
    exact congrArg Refresher.next (dead 0 [] late)

/-- A file that configures a pool of one address and a refresh every so many seconds. -/
def poolFile (seconds : Nat) : GatewayConfig.File :=
  .octets (Utf8.encode ("geolocation:\n  addresses: ['127.0.0.1:80']\n  refresh_interval_secs: "
    ++ toString seconds ++ "\n  circuit_breaker:\n    opening_threshold: 1\n"
    ++ "    opening_window_ms: 1\n    closing_delay_ms: 1\n"))

/-- What that file says. -/
def poolAlone (seconds : UInt64) : GatewayConfig :=
  { geolocation := some { pool := ⟨["127.0.0.1:80"], seconds⟩, breaker := ⟨1, 1, 1⟩ } }

theorem refresher_of_loaded_hourly :
    ∃ g, build (poolAlone 3600) .unreachable = .ok g
      ∧ (g.pass [3600000, 86400000]).refresher
        = some (.after 0 (show 0 < 3600000 by decide) 24) := by
  have loaded : GatewayConfig.load (poolFile 3600) = .ok (poolAlone 3600) := by decide +kernel
  refine ⟨_, rfl, ?_⟩
  obtain ⟨pos, passed, alive, -⟩ :=
    (refresher_of_loaded loaded (rfl : build _ .unreachable = _)).2 _ rfl
  rw [passed, alive 0 [3600000, 86400000] (by decide +kernel)]
  rfl

/-- The largest interval that can be written loads, and its refresher is dead at once. -/
theorem loaded_refresher_dies :
    GatewayConfig.load (poolFile 18446744073709551615) = .ok (poolAlone 18446744073709551615)
      ∧ ∃ g, build (poolAlone 18446744073709551615) .unreachable = .ok g
        ∧ g.refresher = some (.ended 18446744073709551615000) :=
  ⟨by decide +kernel, _, rfl, by decide +kernel⟩

end Gateway

end AuctionGate
