import AuctionGate.Proofs.Breaker.Told
import AuctionGate.Proofs.Pool.Membership
import Mathlib.Data.List.Induction
import Mathlib.Tactic.Tauto

/-!
# A pool among the observers

A pool that observes a registry follows the breakers of its addresses. An address is out of
rotation exactly while its breaker is open, unless the pool was refreshed since it opened
(`run_live`). A closing tells the pool nothing: the address came back when the breaker was half
open, and has been in rotation since.

Results and timers may come to any breaker at any time here, so the runs of breakers whose calls
and timers are kept count of are among those below.
-/

namespace AuctionGate

namespace Registry

open Breaker

/-- What can happen to a registry and the pool among its observers. -/
inductive Move where
  | get (key : String)
  | allow (key : String)
  /-- A call comes back; one that was given up has failed. -/
  | settle (now : Nat) (key : String) (p : Permit) (succeeded : Bool)
  | fire (now : Nat) (key : String) (t : Timer)
  | refresh
  deriving DecidableEq

def move (r : Registry) : Move → Registry
  | .get key => (r.get key).registry
  | .allow key => (r.allow key).1.registry
  | .settle now key p succeeded =>
    if r.Knows key then (r.settle now key p succeeded).registry else r
  | .fire now key t => if r.Knows key then (r.fire now key t).registry else r
  | .refresh => (r.poolTurn Pool.refresh).registry

def run (r : Registry) (ms : List Move) : Registry := ms.foldl move r

/-- The breaker of a key opens. -/
def Opens (r : Registry) (m : Move) (key : String) : Prop :=
  (r.breaker key).state ≠ .opened ∧ ((r.move m).breaker key).state = .opened

/-- The pool was refreshed, and the breaker of a key has not opened since. -/
def Refreshed (r : Registry) (ms : List Move) (key : String) : Prop :=
  ∃ before after, ms = before ++ .refresh :: after
    ∧ ∀ mid m rest, after = mid ++ m :: rest → ¬ (r.run (before ++ .refresh :: mid)).Opens m key

/-- The pool has of its addresses those in rotation whose breaker is not open, and those for which
it is fresh. -/
structure Follows (r : Registry) (fresh : String → Prop) (p : Pool) : Prop where
  pool : r.pool = some p
  kept : p.Kept
  observed : .pool ∈ r.observers
  live : ∀ a, a ∈ p.live ↔ a ∈ p.configured ∧ ((r.breaker a).state = .opened → fresh a)

variable {r r' : Registry} {p : Pool} {key a : String} {now : Nat} {st : Step} {m : Move}
  {ms : List Move} {t : Transition} {fresh : String → Prop}

section Hear

theorem hear_pool (h : r.pool = some p) (o : Observer × Nat) :
    (r.hear now key t o).registry.pool
      = some (if o.1 = .pool then (p.hear key t).pool else p) := by
  rcases o with ⟨_ | _ | _, i⟩
  · simp [hear, poolTurn, h]
  · simp [hear, h]
  · simp [hear, h]

/-- However often a pool is among the observers, it hears a transition as if once. -/
theorem hearAll_pool : ∀ (os : List (Observer × Nat)) {r : Registry} {p : Pool}, r.pool = some p →
    p.Kept → (hearAll now key t os r).registry.pool
      = some (if .pool ∈ os.map (·.1) then (p.hear key t).pool else p)
  | [], _, _, h, _ => h
  | o :: os, r, p, h, hk => by
    have hfirst : (r.hear now key t o).registry.pool = _ := hear_pool h o
    simp only [hearAll, List.map_cons, List.mem_cons]
    by_cases ho : o.1 = .pool
    · rw [if_pos ho] at hfirst
      have hrest := hearAll_pool os hfirst hk.hear
      rw [Pool.hear_hear hk, ite_self] at hrest
      rw [if_pos (.inl ho.symm)]
      exact hrest
    · rw [if_neg ho] at hfirst
      have hrest := hearAll_pool os hfirst hk
      simp only [Ne.symm ho, false_or]
      exact hrest

/-- The pool hears of a step what it tells observers. -/
theorem carry_pool (h : r.pool = some p) (hk : p.Kept) (ho : .pool ∈ r.observers) :
    (r.carry now key st).registry.pool
      = some (match st.change.bind Change.transition? with
        | none => p
        | some t => (p.hear key t).pool) := by
  have hput : (r.put key st.breaker).pool = some p := h
  have hmem : .pool ∈ (r.put key st.breaker).observers.zipIdx.map (·.1) := by
    rw [List.zipIdx_map_fst]
    exact ho
  unfold carry announce
  cases st.change with
  | none => exact hput
  | some c =>
    cases ht : c.transition? with
    | none => simpa [ht] using hput
    | some t =>
      simp only [Option.bind_some, ht]
      rw [hearAll_pool _ hput hk, if_pos hmem]

end Hear

section Moves

theorem Follows.congr {fresh' : String → Prop} (hf : r.Follows fresh p)
    (h : ∀ a, (r.breaker a).state = .opened → (fresh a ↔ fresh' a)) : r.Follows fresh' p where
  pool := hf.pool
  kept := hf.kept
  observed := hf.observed
  live a := (hf.live a).trans (and_congr_right fun _ => forall_congr' (h a))

theorem Follows.still (hf : r.Follows fresh p) (hpool : r'.pool = r.pool)
    (hobs : r'.observers = r.observers)
    (hst : ∀ a, (r'.breaker a).state = (r.breaker a).state) :
    r'.Follows (fun a => (r.breaker a).state = .opened ∧ fresh a) p where
  pool := hpool.trans hf.pool
  kept := hf.kept
  observed := hobs ▸ hf.observed
  live a := by
    rw [hf.live, hst]
    exact and_congr_right fun _ => ⟨fun h ho => ⟨ho, h ho⟩, fun h ho => (h ho).2⟩

theorem mem_hear_of_ne (hk : p.Kept) (h : a ≠ key) :
    a ∈ (p.hear key t).pool.live ↔ a ∈ p.live := by
  cases t with
  | opened => simp [Pool.mem_live_opened hk, h]
  | halfOpened => simp [Pool.mem_live_halfOpened, h]
  | closed => rfl

/-- A step of one breaker reaches the pool by what it tells. -/
theorem Follows.carry (hf : r.Follows fresh p) (hk : r.Knows key)
    (ht : st.Tells (r.breaker key)) (now : Nat) :
    ∃ p', p'.configured = p.configured ∧ (r.carry now key st).registry.Follows
      (fun a => (r.breaker a).state = .opened ∧ fresh a) p' := by
  have hself : (r.carry now key st).registry.breaker key = st.breaker := breaker_carry_self hk
  have hother {a : String} (ha : a ≠ key) :
      (r.carry now key st).registry.breaker a = r.breaker a := breaker_carry_of_ne ha
  have hpool : (r.carry now key st).registry.pool = _ := carry_pool hf.pool hf.kept hf.observed
  have hobs := r.carry_observers now key st
  unfold Step.Tells at ht
  cases htold : st.change.bind Change.transition? with
  | none =>
    rw [htold] at hpool ht
    refine ⟨p, rfl, hf.still (hpool.trans hf.pool.symm) hobs fun a => ?_⟩
    by_cases ha : a = key
    · rw [ha, hself, ht]
    · rw [hother ha]
  | some t =>
    rw [htold] at hpool ht
    refine ⟨(p.hear key t).pool, p.hear_configured key t, hpool, hf.kept.hear,
      hobs ▸ hf.observed, fun a => ?_⟩
    rw [Pool.hear_configured]
    by_cases ha : a = key
    · subst ha
      rw [hself]
      cases t with
      | opened =>
        rw [Pool.mem_live_opened hf.kept]
        exact iff_of_false (fun h => h.1 rfl) fun h => ht.1 (h.2 ht.2).1
      | halfOpened =>
        rw [Pool.mem_live_halfOpened, ht.2]
        exact ⟨fun h => ⟨h.elim And.right (hf.kept.subset ·), nofun⟩, fun h => .inl ⟨rfl, h.1⟩⟩
      | closed =>
        -- The address has been in rotation since its breaker was half open.
        refine (hf.live a).trans (and_congr_right fun _ => ?_)
        rw [ht.1, ht.2]
        exact iff_of_true nofun nofun
    · rw [mem_hear_of_ne hf.kept ha, hother ha, hf.live]
      exact and_congr_right fun _ => ⟨fun h ho => ⟨ho, h ho⟩, fun h ho => (h ho).2⟩

theorem Follows.carry_known (hf : r.Follows fresh p) (ht : st.Tells (r.breaker key)) (now : Nat) :
    ∃ p', p'.configured = p.configured
      ∧ (if r.Knows key then (r.carry now key st).registry else r).Follows
        (fun a => (r.breaker a).state = .opened ∧ fresh a) p' := by
  split_ifs with hk
  · exact hf.carry hk ht now
  · exact ⟨p, rfl, hf.still rfl rfl fun _ => rfl⟩

theorem Follows.refresh (hf : r.Follows fresh p) :
    (r.move .refresh).Follows (fun _ => True) p.refresh.pool := by
  have hmove : r.move .refresh = { r with pool := some p.refresh.pool } := by
    simp only [move, poolTurn, hf.pool]
  rw [hmove]
  exact ⟨rfl, hf.kept.refresh, hf.observed, fun a => (and_iff_left fun _ => trivial).symm⟩

/-- Fresh is what was refreshed just now, and what was fresh before if the breaker was open
already. -/
theorem Follows.move (hf : r.Follows fresh p) (m : Move) :
    ∃ p', p'.configured = p.configured ∧ (r.move m).Follows
      (fun a => m = .refresh ∨ (r.breaker a).state = .opened ∧ fresh a) p' := by
  cases m with
  | get key =>
    obtain ⟨breakers, told, ht⟩ := r.get_turn key
    have hstill : (r.get key).registry.Follows _ p :=
      hf.still (by rw [ht]) (by rw [ht]) fun a => by rw [breaker_get]
    exact ⟨p, rfl, hstill.congr fun a _ => by simp⟩
  | allow key =>
    obtain ⟨breakers, told, ht⟩ := r.allow_turn key
    have hstill : (r.allow key).1.registry.Follows _ p :=
      hf.still (by rw [ht]) (by rw [ht]) (r.state_allow key)
    exact ⟨p, rfl, hstill.congr fun a _ => by simp⟩
  | settle now key q succeeded =>
    obtain ⟨p', hc, hf'⟩ := hf.carry_known (settle_tells r.config q succeeded _) now
    exact ⟨p', hc, hf'.congr fun a _ => by simp⟩
  | fire now key t =>
    obtain ⟨p', hc, hf'⟩ := hf.carry_known (fire_tells (r.breaker key) t) now
    exact ⟨p', hc, hf'.congr fun a _ => by simp⟩
  | refresh => exact ⟨p.refresh.pool, rfl, hf.refresh.congr fun a _ => by simp⟩

end Moves

section Runs

theorem run_snoc (r : Registry) (ms : List Move) (m : Move) :
    r.run (ms ++ [m]) = (r.run ms).move m := List.foldl_concat ..

theorem refreshed_snoc :
    r.Refreshed (ms ++ [m]) a ↔ m = .refresh ∨ r.Refreshed ms a ∧ ¬ (r.run ms).Opens m a := by
  constructor
  · rintro ⟨before, after, heq, hafter⟩
    rcases List.eq_nil_or_concat after with rfl | ⟨after, m', rfl⟩
    · left
      simpa using (List.append_inj' heq rfl).2
    · right
      rw [List.concat_eq_append, ← List.cons_append, ← List.append_assoc] at heq
      obtain ⟨rfl, hm⟩ := List.append_inj' heq rfl
      obtain rfl : m = m' := by simpa using hm
      refine ⟨⟨before, after, rfl, fun mid m' rest h => ?_⟩, hafter after m [] (by simp)⟩
      exact hafter mid m' (rest ++ [m]) (by simp [h])
  · rintro (rfl | ⟨⟨before, after, rfl, hafter⟩, hnot⟩)
    · exact ⟨ms, [], rfl, fun mid m rest h => absurd h (by simp)⟩
    · refine ⟨before, after ++ [m], by simp, fun mid m' rest h => ?_⟩
      rcases List.eq_nil_or_concat rest with rfl | ⟨rest, m'', rfl⟩
      · obtain ⟨rfl, hm⟩ := List.append_inj' h rfl
        obtain rfl : m = m' := by simpa using hm
        exact hnot
      · rw [List.concat_eq_append, ← List.cons_append, ← List.append_assoc] at h
        exact hafter mid m' rest (List.append_inj' h rfl).1

/-- The pool has of its addresses those in rotation whose breaker is not open, and those that
were refreshed since it opened. -/
theorem Follows.run (hf : r.Follows (fun _ => False) p) : ∀ ms : List Move,
    ∃ p', p'.configured = p.configured ∧ (r.run ms).Follows (r.Refreshed ms) p' := by
  intro ms
  -- Freshness looks back from the end of the run, so the run is taken apart there.
  induction ms using List.reverseRecOn with
  | nil =>
    refine ⟨p, rfl, hf.congr fun a _ => ⟨False.elim, ?_⟩⟩
    rintro ⟨before, after, heq, -⟩
    exact absurd heq (by simp)
  | append_singleton ms m ih =>
    obtain ⟨p', hc, hf'⟩ := ih
    obtain ⟨p'', hc', hf''⟩ := hf'.move m
    rw [run_snoc]
    refine ⟨p'', hc'.trans hc, hf''.congr fun a ha => ?_⟩
    rw [refreshed_snoc, Opens]
    tauto

theorem follows_new (config : Config) {observers : List Observer} (ho : .pool ∈ observers)
    (name : String) (addresses : List String) :
    ({ config, observers, pool := some (.ofAddresses name addresses) } : Registry).Follows
      (fun _ => False) (.ofAddresses name addresses) where
  pool := rfl
  kept := Pool.kept_ofAddresses name addresses
  observed := ho
  live _ := (and_iff_left nofun).symm

theorem knows_of_opened (h : (r.breaker a).state = .opened) : r.Knows a :=
  knows_of_breaker_ne fun hnew => by
    rw [hnew] at h
    cases h

theorem not_refreshed (h : .refresh ∉ ms) : ¬ r.Refreshed ms a := by
  rintro ⟨before, after, rfl, -⟩
  exact h (by simp)

/-- At any point of any run an address is in rotation exactly if it is configured and has no
breaker, one that is not open, or one that opened before the last refresh. -/
theorem run_live (config : Config) (observers : List Observer) (ho : .pool ∈ observers)
    (name : String) (addresses : List String) (ms : List Move) :
    let r₀ : Registry := { config, observers, pool := some (.ofAddresses name addresses) }
    let r := r₀.run ms
    ∃ p, r.pool = some p ∧ p.live.Nodup
      ∧ (∀ a, a ∈ p.live ↔ a ∈ addresses
        ∧ (¬ r.Knows a ∨ (r.breaker a).state ≠ .opened ∨ r₀.Refreshed ms a))
      ∧ (.refresh ∉ ms → ∀ a, a ∈ p.live ↔ a ∈ addresses ∧ (r.breaker a).state ≠ .opened) := by
  intro r₀ r
  obtain ⟨p, hc, hf⟩ := (follows_new config ho name addresses).run ms
  have hlive (a : String) : a ∈ p.live ↔ a ∈ addresses
      ∧ ((r.breaker a).state = .opened → r₀.Refreshed ms a) := by
    rw [hf.live, hc]
    exact and_congr_left fun _ => mem_dedup
  refine ⟨p, hf.pool, hf.kept.live, fun a => (hlive a).trans (and_congr_right fun _ => ?_),
    fun hms a => (hlive a).trans (and_congr_right fun _ => ?_)⟩
  · have hknows : (r.breaker a).state = .opened → r.Knows a := knows_of_opened
    tauto
  · exact ⟨fun h hst => not_refreshed hms (h hst), fun h hst => absurd hst h⟩

/-- Two breakers open, one before and one after a refresh; so does one of an address that is not
configured. -/
def staggered : List Move :=
  [.allow "a:1", .settle 0 "a:1" ⟨false⟩ false, .refresh, .allow "b:1",
    .settle 0 "b:1" ⟨false⟩ false, .allow "z:1", .settle 0 "z:1" ⟨false⟩ false]

/-- Of two open breakers the refresh came after the opening of one. -/
theorem run_live_staggered :
    Observer.pool ∈ [Observer.recorder, .pool]
      ∧ let r₀ : Registry :=
          { config := ⟨1, 100, 1000⟩, observers := [.recorder, .pool]
            pool := some (.ofAddresses "p" ["a:1", "b:1", "c:1"]) }
        ((r₀.run staggered).breaker "a:1").state = .opened
          ∧ ((r₀.run staggered).breaker "b:1").state = .opened
          ∧ (r₀.run staggered).pool = some ⟨"p", ["a:1", "b:1", "c:1"], ["a:1", "c:1"]⟩
          ∧ r₀.Refreshed staggered "a:1" ∧ ¬ r₀.Refreshed staggered "b:1" := by
  refine ⟨by decide, ?_⟩
  intro r₀
  obtain ⟨p, hp, -, hlive, -⟩ := run_live ⟨1, 100, 1000⟩ [.recorder, .pool] (by decide) "p"
    ["a:1", "b:1", "c:1"] staggered
  have hpool : (r₀.run staggered).pool = some ⟨"p", ["a:1", "b:1", "c:1"], ["a:1", "c:1"]⟩ := by
    decide
  have ha : ((r₀.run staggered).breaker "a:1").state = .opened := by decide
  have hb : ((r₀.run staggered).breaker "b:1").state = .opened := by decide
  obtain rfl : p = _ := Option.some.inj (hp.symm.trans hpool)
  refine ⟨ha, hb, hpool, ?_, fun hfresh => ?_⟩
  · rcases ((hlive "a:1").1 (by decide)).2 with h | h | h
    · exact absurd (knows_of_opened ha) h
    · exact absurd ha h
    · exact h
  · exact absurd ((hlive "b:1").2 ⟨by decide, .inr (.inr hfresh)⟩) (by decide)

end Runs

end Registry

end AuctionGate
