import AuctionGate.Proofs.Breaker.Circuit

/-!
# What a breaker is like between events

Whatever callers and timers do, and in whatever order, the fields of a breaker fit together
(`run_representation`): the failures fit the state, the timer that the state calls for is on its
way and no other is, and a half open breaker knows whether its probe is out. So a breaker never
gets stuck (`Sound.movesOn`): the next call is let through, or a timer that will bring the probe
is on its way, or the probe is out and either of its results ends the half open state.
-/

namespace AuctionGate.Circuit

open Breaker

variable {c : Config} {s : Circuit} {id : Nat}

/-- The next call is let through, or else something is on its way that ends the waiting. -/
def MovesOn (c : Config) (s : Circuit) : Prop :=
  s.breaker.allow.isSome
    ∨ (∃ t, s.live = [t] ∧ (s.breaker.fire t).breaker.allow.isSome)
    ∨ ∃ id, (id, ⟨true⟩) ∈ s.calls ∧ (step c s (.settle id true)).breaker.state = .closed
        ∧ (step c s (.settle id false)).breaker.state = .opened
        ∧ (step c s (.drop id)).breaker.state = .opened

/-- A closed breaker is below the threshold, and waits for the end of the window exactly if it has
counted failures. -/
theorem Sound.closed (hs : Sound c s) (ht : s.Timed) (h : s.breaker.state = .closed) :
    s.breaker.failures.toNat < c.threshold ∧ s.probesOut = 0
      ∧ s.live = if s.breaker.failures = 0 then [] else [⟨s.breaker.epoch, .forgive⟩] := by
  refine ⟨hs.breaker.closed h, ?_, ht.live.trans (awaited_closed h)⟩
  rw [hs.probes, hs.breaker.not_probing (by rw [h]; decide)]
  rfl

theorem Sound.opened (hs : Sound c s) (ht : s.Timed) (h : s.breaker.state = .opened) :
    s.breaker.failures.toNat = c.threshold ∧ s.probesOut = 0
      ∧ s.live = [⟨s.breaker.epoch, .awaitProbe⟩] := by
  refine ⟨hs.breaker.tripped (by rw [h]; decide), ?_, ht.live.trans (awaited_opened h)⟩
  rw [hs.probes, hs.breaker.not_probing (by rw [h]; decide)]
  rfl

/-- A half open breaker waits for nothing but its probe, and knows whether it is out. -/
theorem Sound.halfOpen (hs : Sound c s) (ht : s.Timed) (h : s.breaker.state = .halfOpen) :
    s.breaker.failures.toNat = c.threshold ∧ s.live = []
      ∧ s.probesOut ≤ 1 ∧ (s.breaker.probing = true ↔ s.probesOut = 1) := by
  refine ⟨hs.breaker.tripped (by rw [h]; decide), ht.live.trans (awaited_halfOpen h), ?_⟩
  rw [hs.probes]
  cases s.breaker.probing <;> decide

theorem step_settle {p : Permit} (h : s.calls.lookup id = some p) (succeeded : Bool) :
    (step c s (.settle id succeeded)).breaker = (s.breaker.settle c p succeeded).breaker := by
  simp only [step, bring, h]
  rfl

/-- A sound circuit is not stuck. -/
theorem Sound.movesOn (hs : Sound c s) (ht : s.Timed) (hn : s.Numbered) : MovesOn c s := by
  cases hst : s.breaker.state with
  | closed =>
    left
    rw [allow_closed hst]
    rfl
  | opened =>
    right; left
    refine ⟨_, (hs.opened ht hst).2.2, ?_⟩
    rw [fire_awaitProbe hst]
    rfl
  | halfOpen =>
    cases hp : s.breaker.probing with
    | false =>
      left
      rw [allow_halfOpen hst, hp]
      rfl
    | true =>
      right; right
      obtain ⟨id, hid⟩ := hs.probe_out hp
      have hl := hn.lookup hid
      refine ⟨id, hid, ?_, ?_, ?_⟩
      · rw [step_settle hl, settle_probe_succeeded hst]
        rfl
      · rw [step_settle hl, settle_probe_failed hst]
        rfl
      · rw [show step c s (.drop id) = step c s (.settle id false) from rfl, step_settle hl,
          settle_probe_failed hst]
        rfl

/-- The fields of a breaker fit its state at any point of any run, as long as epochs do not
repeat. -/
theorem run_representation (c : Config) (es : List Event)
    (hb : (run c {} es).epochs < 2 ^ 64) :
    let s := run c {} es
    let b := s.breaker
    (b.state = .closed → b.failures.toNat < c.threshold ∧ s.probesOut = 0
        ∧ s.live = if b.failures = 0 then [] else [⟨b.epoch, .forgive⟩])
      ∧ (b.state = .opened → b.failures.toNat = c.threshold ∧ s.probesOut = 0
        ∧ s.live = [⟨b.epoch, .awaitProbe⟩])
      ∧ (b.state = .halfOpen → b.failures.toNat = c.threshold ∧ s.live = []
        ∧ s.probesOut ≤ 1 ∧ (b.probing = true ↔ s.probesOut = 1))
      ∧ (b.state = .closed → (b.failures + 1).toNat = b.failures.toNat + 1)
      ∧ (∀ id p, (id, p) ∈ s.calls → p.probe = true → b.state = .halfOpen)
      ∧ MovesOn c s := by
  intro s b
  have hs : Sound c s := run_sound c es {} (sound_new c)
  have ht : s.Timed := run_timed c es {} timed_new (sound_new c) hb
  have hn : s.Numbered := run_numbered c es {} numbered_new
  exact ⟨hs.closed ht, hs.opened ht, hs.halfOpen ht, hs.breaker.failures_succ,
    fun id p hq hp => hs.breaker.probing (hs.probing hq hp), hs.movesOn ht hn⟩

/-- A probe is out: the breaker opened, its delay is over, and a call was let through. -/
def probeOut : List Event :=
  [.call, .settle 0 false, .wait 1000, .wake, .fire ⟨1, .awaitProbe⟩, .call]

/-- A half open breaker with its probe out. -/
theorem run_representation_probeOut :
    (run ⟨1, 100, 1000⟩ {} probeOut).epochs < 2 ^ 64
      ∧ (run ⟨1, 100, 1000⟩ {} probeOut).breaker.state = .halfOpen
      ∧ (run ⟨1, 100, 1000⟩ {} probeOut).breaker.failures.toNat = 1
      ∧ (run ⟨1, 100, 1000⟩ {} probeOut).live = []
      ∧ (run ⟨1, 100, 1000⟩ {} probeOut).probesOut = 1 := by
  have hb : (run ⟨1, 100, 1000⟩ {} probeOut).epochs < 2 ^ 64 := by decide
  have hst : (run ⟨1, 100, 1000⟩ {} probeOut).breaker.state = .halfOpen := by decide
  obtain ⟨hf, hlive, -, hprobe⟩ := (run_representation ⟨1, 100, 1000⟩ probeOut hb).2.2.1 hst
  exact ⟨hb, hst, hf, hlive, hprobe.1 (by decide)⟩

end AuctionGate.Circuit
