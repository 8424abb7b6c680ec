import AuctionGate.Breaker.Basic
import Mathlib.Algebra.Group.Nat.Defs
import Mathlib.Tactic.ByContra
import Mathlib.Tactic.SplitIfs

/-!
# What a breaker's steps do

Each operation of a breaker by cases, so that nothing else has to open it. A step that stops the
timer begins a new epoch, and what it starts carries that epoch (`Step.Follows`).

A breaker is `Sound` if its failures are below the threshold as long as it is closed, and at the
threshold as soon as it is not. Every step keeps that, so the count never wraps
(`Sound.failures_succ`). `awaited` is the timer a breaker waits for: a closed one with failures
waits for their forgiveness, an open one for its probe. Every step keeps up with it.
-/

namespace AuctionGate.Breaker

variable {c : Config} {b b' : Breaker} {p : Permit} {t : Timer} {succeeded : Bool}

/-- Failures in a row that open the circuit; a breaker told 0 opens on the first. -/
def Config.threshold (c : Config) : Nat := max 1 c.openingThreshold.toNat

/-- The timers of its own epoch that a breaker waits for. -/
def awaited (b : Breaker) : List Timer :=
  match b.state with
  | .closed => if b.failures = 0 then [] else [⟨b.epoch, .forgive⟩]
  | .opened => [⟨b.epoch, .awaitProbe⟩]
  | .halfOpen => []

/-- The failures of a breaker fit its state, and a probe is out only while it is half open. -/
structure Sound (c : Config) (b : Breaker) : Prop where
  closed : b.state = .closed → b.failures.toNat < c.threshold
  tripped : b.state ≠ .closed → b.failures.toNat = c.threshold
  probing : b.probing = true → b.state = .halfOpen

/-- A step begins a new epoch exactly when it stops the timer, and starts timers of that epoch
only. -/
structure Step.Follows (s : Step) (epoch : UInt64) : Prop where
  epoch : s.breaker.epoch = if s.stops then epoch + 1 else epoch
  started : ∀ delay t, s.started = some (delay, t) → s.stops = true ∧ t.epoch = s.breaker.epoch

/-- A step starts what the breaker waits for after it, or lets it go on waiting. -/
def Step.Arms (s : Step) (b : Breaker) : Prop :=
  s.breaker.awaited = if s.stops then (s.started.map (·.2)).toList else b.awaited

theorem Step.Follows.started_eq_none {s : Step} {epoch : UInt64} (h : s.Follows epoch)
    (hstop : s.stops = false) : s.started = none := by
  rcases hs : s.started with _ | ⟨delay, t⟩
  · rfl
  · have := (h.started _ _ hs).1
    rw [hstop] at this
    cases this

/-- A step that does not stop the timer stays in its epoch. -/
theorem Step.Follows.epoch_still {s : Step} {epoch : UInt64} (h : s.Follows epoch)
    (hstop : s.stops = false) : s.breaker.epoch = epoch := by
  rw [h.epoch, hstop]
  rfl

theorem threshold_le (c : Config) : c.threshold < 2 ^ 32 := by
  have := c.openingThreshold.toNat_lt
  unfold Config.threshold
  omega

theorem threshold_pos (c : Config) : 0 < c.threshold := by
  unfold Config.threshold
  omega

/-- A configuration without fault has no empty window or delay. -/
theorem delays_pos (hc : c.fault? = none) :
    0 < c.openingWindow.toNat ∧ 0 < c.closingDelay.toNat := by
  unfold Config.fault? at hc
  split_ifs at hc with ht hw hd
  have hpos {n : UInt64} (hn : n ≠ 0) : 0 < n.toNat :=
    Nat.pos_of_ne_zero fun h0 => hn (UInt64.toNat_inj.1 h0)
  exact ⟨hpos hw, hpos hd⟩

theorem sound_new (c : Config) : Sound c {} where
  closed _ := threshold_pos c
  tripped h := absurd rfl h
  probing h := by simp at h

theorem Sound.failures_succ (hs : Sound c b) (h : b.state = .closed) :
    (b.failures + 1).toNat = b.failures.toNat + 1 := by
  have := hs.closed h
  have := threshold_le c
  rw [UInt32.toNat_add]
  simp only [UInt32.toNat_one]
  omega

theorem Sound.opens_iff (hs : Sound c b) (h : b.state = .closed) :
    c.openingThreshold ≤ b.failures + 1 ↔ b.failures.toNat + 1 = c.threshold := by
  have := hs.closed h
  rw [UInt32.le_iff_toNat_le, hs.failures_succ h]
  unfold Config.threshold at this ⊢
  omega

theorem awaited_closed (h : b.state = .closed) :
    b.awaited = if b.failures = 0 then [] else [⟨b.epoch, .forgive⟩] := by
  simp only [awaited, h]

theorem awaited_forgive (h : b.state = .closed) (h0 : b.failures ≠ 0) :
    b.awaited = [⟨b.epoch, .forgive⟩] := by
  rw [awaited_closed h, if_neg h0]

theorem awaited_opened (h : b.state = .opened) : b.awaited = [⟨b.epoch, .awaitProbe⟩] := by
  simp only [awaited, h]

theorem awaited_halfOpen (h : b.state = .halfOpen) : b.awaited = [] := by
  simp only [awaited, h]

section Allow

theorem allow_closed (h : b.state = .closed) : b.allow = some (⟨false⟩, b) := by
  simp only [allow, h]

theorem allow_opened (h : b.state = .opened) : b.allow = none := by
  simp only [allow, h]

theorem allow_halfOpen (h : b.state = .halfOpen) :
    b.allow = if b.probing then none else some (⟨true⟩, { b with probing := true }) := by
  simp only [allow, h]

/-- A closed breaker lets a call through as it is; a half open one lets the probe through. -/
theorem allow_cases (h : b.allow = some (p, b')) :
    b.state = .closed ∧ p = ⟨false⟩ ∧ b' = b
      ∨ b.state = .halfOpen ∧ b.probing = false ∧ p = ⟨true⟩ ∧ b' = { b with probing := true } := by
  cases hst : b.state with
  | closed =>
    rw [allow_closed hst] at h
    simp only [Option.some.injEq, Prod.mk.injEq] at h
    exact .inl ⟨rfl, h.1.symm, h.2.symm⟩
  | opened =>
    rw [allow_opened hst] at h
    cases h
  | halfOpen =>
    rw [allow_halfOpen hst] at h
    split_ifs at h with hp
    simp only [Option.some.injEq, Prod.mk.injEq] at h
    exact .inr ⟨rfl, by simpa using hp, h.1.symm, by rw [← hst]; exact h.2.symm⟩

theorem allow_sound (hs : Sound c b) (h : b.allow = some (p, b')) : Sound c b' := by
  rcases allow_cases h with ⟨-, -, rfl⟩ | ⟨hst, -, -, rfl⟩
  · exact hs
  · exact ⟨hs.closed, hs.tripped, fun _ => hst⟩

theorem allow_awaited (h : b.allow = some (p, b')) : b'.awaited = b.awaited := by
  rcases allow_cases h with ⟨-, -, rfl⟩ | ⟨-, -, -, rfl⟩ <;> rfl

theorem allow_epoch (h : b.allow = some (p, b')) : b'.epoch = b.epoch := by
  rcases allow_cases h with ⟨-, -, rfl⟩ | ⟨-, -, -, rfl⟩ <;> rfl

end Allow

section Settle

theorem settle_probe_succeeded (h : b.state = .halfOpen) :
    b.settle c ⟨true⟩ true = close { b with probing := false } := by
  simp [settle, h]

theorem settle_probe_failed (h : b.state = .halfOpen) :
    b.settle c ⟨true⟩ false = trip c { b with probing := false } := by
  simp [settle, h]

/-- No call but the probe counts unless the breaker is closed. -/
theorem settle_of_ne (h : b.state ≠ .closed) :
    b.settle c ⟨false⟩ succeeded = { breaker := b } := by
  simp [settle, h]

theorem settle_succeeded (h : b.state = .closed) :
    b.settle c ⟨false⟩ true = cancel { b with failures := 0 } none := by
  simp [settle, h]

theorem settle_failed (h : b.state = .closed) : b.settle c ⟨false⟩ false = b.fail c := by
  simp [settle, h]

/-- The failure that reaches the threshold opens the circuit. -/
theorem fail_last (hs : Sound c b) (h : b.state = .closed)
    (hf : b.failures.toNat + 1 = c.threshold) :
    b.fail c = trip c { b with failures := b.failures + 1 } := by
  simp only [fail, if_pos ((hs.opens_iff h).2 hf)]

/-- The first failure of a run that takes more starts the window. -/
theorem fail_first (hs : Sound c b) (h : b.state = .closed)
    (hf : b.failures.toNat + 1 ≠ c.threshold) (h0 : b.failures = 0) :
    b.fail c = rearm { b with failures := 1 } c.openingWindow .forgive none := by
  have hle := mt (hs.opens_iff h).1 hf
  rw [h0, UInt32.zero_add] at hle
  simp only [fail, h0, UInt32.zero_add, if_neg hle, ↓reduceIte]

theorem fail_next (hs : Sound c b) (h : b.state = .closed)
    (hf : b.failures.toNat + 1 ≠ c.threshold) (h0 : b.failures ≠ 0) :
    b.fail c = { breaker := { b with failures := b.failures + 1 } } := by
  have h1 : b.failures + 1 ≠ 1 := by
    intro h1
    have := hs.failures_succ h
    rw [h1, UInt32.toNat_one] at this
    exact h0 (UInt32.toNat_inj.1 (by simpa using this.symm))
  simp only [fail, if_neg (mt (hs.opens_iff h).1 hf), if_neg h1]

theorem Sound.not_probing (hs : Sound c b) (h : b.state ≠ .halfOpen) : b.probing = false := by
  by_contra hp
  exact h (hs.probing (by simpa using hp))

theorem trip_sound (hf : b.failures.toNat = c.threshold) (hp : b.probing = false) :
    Sound c (trip c b).breaker where
  closed := nofun
  tripped _ := hf
  probing h := by
    rw [show (trip c b).breaker.probing = b.probing from rfl, hp] at h
    cases h

theorem close_sound (hp : b.probing = false) : Sound c (close b).breaker where
  closed _ := threshold_pos c
  tripped h := absurd rfl h
  probing h := by
    rw [show (close b).breaker.probing = b.probing from rfl, hp] at h
    cases h

theorem fail_sound (hs : Sound c b) (h : b.state = .closed) : Sound c (b.fail c).breaker := by
  have hp := hs.not_probing (by rw [h]; decide)
  have hsucc := hs.failures_succ h
  have hlt := hs.closed h
  by_cases hf : b.failures.toNat + 1 = c.threshold
  · rw [fail_last hs h hf]
    exact trip_sound (hsucc.trans hf) hp
  · by_cases h0 : b.failures = 0
    · rw [fail_first hs h hf h0]
      refine ⟨fun _ => ?_, fun h' => absurd h h', hs.probing⟩
      rw [h0] at hf hlt
      simp only [rearm, renew, UInt32.toNat_zero, UInt32.toNat_one] at hf hlt ⊢
      omega
    · rw [fail_next hs h hf h0]
      refine ⟨fun _ => ?_, fun h' => absurd h h', hs.probing⟩
      simp only [hsucc]
      omega

/-- A result keeps a breaker sound if it is not that of a probe nobody let through. -/
theorem settle_sound (hs : Sound c b) (hp : p.probe = true → b.state = .halfOpen) :
    Sound c (b.settle c p succeeded).breaker := by
  rcases p with ⟨_ | _⟩
  · by_cases h : b.state = .closed
    · cases succeeded
      · rw [settle_failed h]
        exact fail_sound hs h
      · rw [settle_succeeded h]
        exact ⟨fun _ => threshold_pos c, fun h' => absurd h h', hs.probing⟩
    · rw [settle_of_ne h]
      exact hs
  · have h := hp rfl
    have hf := hs.tripped (by rw [h]; decide)
    cases succeeded
    · rw [settle_probe_failed h]
      exact trip_sound hf rfl
    · rw [settle_probe_succeeded h]
      exact close_sound rfl

/-- The probe takes its mark with it, and no other call touches it. -/
theorem settle_probing (c : Config) (p : Permit) (succeeded : Bool) (b : Breaker) :
    (b.settle c p succeeded).breaker.probing = (b.probing && !p.probe) := by
  rcases p with ⟨_ | _⟩
  · simp only [settle, fail, Bool.false_eq_true, if_false]
    split_ifs <;> simp [cancel, trip, rearm, renew]
  · simp only [settle, if_true]
    split_ifs <;> simp [close, cancel, trip, rearm, renew]

theorem follows_still (b : Breaker) : Step.Follows { breaker := b } b.epoch :=
  ⟨rfl, nofun⟩

theorem rearm_follows (b : Breaker) (delay : UInt64) (a : Action) (change : Option Change) :
    (rearm b delay a change).Follows b.epoch :=
  ⟨rfl, fun _ _ h => by cases h; exact ⟨rfl, rfl⟩⟩

theorem cancel_follows (b : Breaker) (change : Option Change) :
    (cancel b change).Follows b.epoch :=
  ⟨rfl, nofun⟩

theorem fail_follows (c : Config) (b : Breaker) : (b.fail c).Follows b.epoch := by
  simp only [fail]
  split_ifs
  · exact rearm_follows ..
  · exact rearm_follows ..
  · exact follows_still _

theorem settle_follows (c : Config) (p : Permit) (succeeded : Bool) (b : Breaker) :
    (b.settle c p succeeded).Follows b.epoch := by
  simp only [settle]
  split_ifs
  · exact follows_still _
  · exact cancel_follows ..
  · exact rearm_follows ..
  · exact follows_still _
  · exact cancel_follows ..
  · exact fail_follows c b

theorem fail_delay {delay : UInt64} (h : (b.fail c).started = some (delay, t)) :
    delay = c.openingWindow ∨ delay = c.closingDelay := by
  simp only [fail] at h
  split_ifs at h
  · cases h
    exact .inr rfl
  · cases h
    exact .inl rfl

theorem settle_delay {delay : UInt64} (h : (b.settle c p succeeded).started = some (delay, t)) :
    delay = c.openingWindow ∨ delay = c.closingDelay := by
  simp only [settle] at h
  split_ifs at h
  · cases h
  · cases h
    exact .inr rfl
  · cases h
  · exact fail_delay h

theorem fail_arms (hs : Sound c b) (h : b.state = .closed) : (b.fail c).Arms b := by
  by_cases hf : b.failures.toNat + 1 = c.threshold
  · rw [fail_last hs h hf]
    rfl
  · by_cases h0 : b.failures = 0
    · rw [fail_first hs h hf h0]
      simp [Step.Arms, rearm, renew, awaited, h]
    · rw [fail_next hs h hf h0]
      have hne : b.failures + 1 ≠ 0 := by
        intro h'
        have := hs.failures_succ h
        rw [h'] at this
        simp at this
      simp [Step.Arms, awaited, h, h0, hne]

theorem settle_arms (hs : Sound c b) (hp : p.probe = true → b.state = .halfOpen)
    (succeeded : Bool) :
    (b.settle c p succeeded).Arms b := by
  rcases p with ⟨_ | _⟩
  · by_cases h : b.state = .closed
    · cases succeeded
      · rw [settle_failed h]
        exact fail_arms hs h
      · rw [settle_succeeded h]
        simp [Step.Arms, cancel, renew, awaited, h]
    · rw [settle_of_ne h]
      rfl
  · have h := hp rfl
    cases succeeded
    · rw [settle_probe_failed h]
      rfl
    · rw [settle_probe_succeeded h]
      rfl

end Settle

section Fire

theorem fire_stale (h : b.epoch ≠ t.epoch) : b.fire t = { breaker := b } := by
  simp [fire, h]

theorem fire_forgive (h : b.state = .closed) :
    b.fire ⟨b.epoch, .forgive⟩
      = { breaker := { b with failures := 0 }, change := some (.forgiven b.failures) } := by
  simp [fire, h]

theorem fire_awaitProbe (h : b.state = .opened) :
    b.fire ⟨b.epoch, .awaitProbe⟩
      = { breaker := { b with state := .halfOpen, probing := false }
          change := some .halfOpened } := by
  simp [fire, h]

theorem mem_awaited (h : t ∈ b.awaited) :
    b.state = .closed ∧ b.failures ≠ 0 ∧ t = ⟨b.epoch, .forgive⟩
      ∨ b.state = .opened ∧ t = ⟨b.epoch, .awaitProbe⟩ := by
  unfold awaited at h
  split at h
  · rename_i hst
    split_ifs at h with h0
    · cases h
    · exact .inl ⟨hst, h0, List.mem_singleton.1 h⟩
  · rename_i hst
    exact .inr ⟨hst, List.mem_singleton.1 h⟩
  · cases h

theorem fire_sound (hs : Sound c b) (t : Timer) : Sound c (b.fire t).breaker := by
  simp only [fire]
  split_ifs
  · exact hs
  · split
    · rename_i hst
      exact ⟨fun _ => threshold_pos c, fun h => absurd hst h, hs.probing⟩
    · rename_i hst
      exact ⟨nofun, fun _ => hs.tripped (by rw [hst]; decide), nofun⟩
    · exact hs

/-- A timer a breaker waits for finds the breaker it was started for, and is the last. -/
theorem fire_awaited (h : t ∈ b.awaited) : (b.fire t).breaker.awaited = [] := by
  rcases mem_awaited h with ⟨hst, -, rfl⟩ | ⟨hst, rfl⟩
  · rw [fire_forgive hst]
    simp [awaited, hst]
  · rw [fire_awaitProbe hst]
    rfl

theorem awaited_eq_singleton (h : t ∈ b.awaited) : b.awaited = [t] := by
  rcases mem_awaited h with ⟨hst, h0, rfl⟩ | ⟨hst, rfl⟩
  · simp [awaited, hst, h0]
  · simp [awaited, hst]

theorem fire_probing (hs : Sound c b) (t : Timer) :
    (b.fire t).breaker.probing = b.probing := by
  simp only [fire]
  split_ifs
  · rfl
  · split
    · rfl
    · rename_i hst
      exact (hs.not_probing (by rw [hst]; decide)).symm
    · rfl

/-- A timer lets no probe through. -/
theorem probing_of_fire (h : (b.fire t).breaker.probing = true) :
    b.probing = true := by
  simp only [fire] at h
  split_ifs at h
  · exact h
  · split at h
    · exact h
    · cases h
    · exact h

theorem fire_stops (b : Breaker) (t : Timer) : (b.fire t).stops = false := by
  simp only [fire]
  split_ifs
  · rfl
  · split <;> rfl

theorem fire_follows (b : Breaker) (t : Timer) : (b.fire t).Follows b.epoch := by
  simp only [fire]
  split_ifs
  · exact follows_still b
  · split
    · exact ⟨rfl, nofun⟩
    · exact ⟨rfl, nofun⟩
    · exact follows_still b

end Fire

end AuctionGate.Breaker
