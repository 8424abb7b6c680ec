import AuctionGate.Proofs.Breaker.Steps

/-!
# Breakers without timers

A stamped breaker starts no timers. It remembers when the run of failures began and when it opened,
and makes up for what has fallen due (`normalise`) before anything else happens to it.

A breaker `Tracks` a stamped one if both are in the same state and its timers are due when the
stamped one would make up for them. Asking, bringing results and firing timers keep that, and what
observers hear of a breaker is what a stamped breaker has to tell, with the same times.
-/

namespace AuctionGate

open Breaker

structure Stamped where
  state : State := .closed
  failures : Nat := 0
  /-- When the first failure of the run was counted. -/
  runStart : Nat := 0
  openedAt : Nat := 0
  probing : Bool := false
  deriving DecidableEq, Repr

namespace Stamped

/-- Makes up for what has fallen due by a time. Observers hear of it as if it had been done in
time. -/
def normalise (c : Config) (now : Nat) (r : Stamped) : Stamped × List (Nat × Transition) :=
  match r.state with
  | .closed =>
    if 0 < r.failures ∧ r.runStart + c.openingWindow.toNat ≤ now then ({ r with failures := 0 }, [])
    else (r, [])
  | .opened =>
    if r.openedAt + c.closingDelay.toNat ≤ now then
      ({ r with state := .halfOpen }, [(r.openedAt + c.closingDelay.toNat, .halfOpened)])
    else (r, [])
  | .halfOpen => (r, [])

def allow (r : Stamped) : Option (Permit × Stamped) :=
  match r.state with
  | .closed => some (⟨false⟩, r)
  | .opened => none
  | .halfOpen => if r.probing then none else some (⟨true⟩, { r with probing := true })

def settle (c : Config) (now : Nat) (p : Permit) (succeeded : Bool) (r : Stamped) :
    Stamped × List (Nat × Transition) :=
  match r.state, p.probe, succeeded with
  | .closed, false, true => ({ r with failures := 0 }, [])
  | .closed, false, false =>
    let r := { r with
      failures := r.failures + 1
      runStart := if r.failures = 0 then now else r.runStart }
    if c.openingThreshold.toNat ≤ r.failures then
      ({ r with state := .opened, openedAt := now }, [(now, .opened)])
    else (r, [])
  | .halfOpen, true, true =>
    ({ r with state := .closed, failures := 0, probing := false }, [(now, .closed)])
  | .halfOpen, true, false =>
    ({ r with state := .opened, openedAt := now, probing := false }, [(now, .opened)])
  | _, _, _ => (r, [])

/-- When the failures are forgiven, or the breaker becomes half open. -/
def due (c : Config) (r : Stamped) : Nat :=
  match r.state with
  | .closed => r.runStart + c.openingWindow.toNat
  | _ => r.openedAt + c.closingDelay.toNat

/-- A breaker agrees with a stamped one, and the timers it waits for are due in time. -/
structure Tracks (c : Config) (r : Stamped) (b : Breaker) (timers : List (Nat × Timer)) : Prop where
  sound : Breaker.Sound c b
  state : b.state = r.state
  failures : b.failures.toNat = r.failures
  probing : b.probing = r.probing
  timers : timers = b.awaited.map (r.due c, ·)

variable {c : Config} {r : Stamped} {b b' : Breaker} {p : Permit} {now : Nat}
  {timers : List (Nat × Timer)}

theorem tracks_new (c : Config) : Tracks c {} {} [] :=
  ⟨sound_new c, rfl, rfl, rfl, rfl⟩

/-- The timers after a step, where those given ran before. -/
def timersAfter (now : Nat) (timers : List (Nat × Timer)) (s : Step) : List (Nat × Timer) :=
  if s.stops then (s.started.map fun (delay, t) => (now + delay.toNat, t)).toList else timers

def heardOf (now : Nat) (s : Step) : List (Nat × Transition) :=
  ((s.change.bind Change.transition?).map (now, ·)).toList

/-- A step of a breaker leaves it tracking what a stamped one became, and both tell the same. -/
structure Agrees (c : Config) (now : Nat) (timers : List (Nat × Timer)) (s : Step)
    (q : Stamped × List (Nat × Transition)) : Prop where
  tracks : Tracks c q.1 s.breaker (timersAfter now timers s)
  heard : heardOf now s = q.2

theorem Tracks.failures_eq_zero (h : Tracks c r b timers) : b.failures = 0 ↔ r.failures = 0 := by
  rw [← h.failures, ← UInt32.toNat_inj, UInt32.toNat_zero]

section Allow

theorem Tracks.allow_none (h : Tracks c r b timers) (ha : b.allow = none) : r.allow = none := by
  have hst := h.state
  cases hb : b.state with
  | closed =>
    rw [allow_closed hb] at ha
    cases ha
  | opened =>
    rw [hb] at hst
    simp only [Stamped.allow, ← hst]
  | halfOpen =>
    rw [hb] at hst
    rw [allow_halfOpen hb, h.probing] at ha
    split_ifs at ha with hp
    simp only [Stamped.allow, ← hst, if_pos hp]

theorem Tracks.allow_some (h : Tracks c r b timers) (ha : b.allow = some (p, b')) :
    ∃ r', r.allow = some (p, r') ∧ Tracks c r' b' timers := by
  have hs := allow_sound h.sound ha
  rcases allow_cases ha with ⟨hst, rfl, rfl⟩ | ⟨hst, hp, rfl, rfl⟩
  · have hst' := h.state.symm.trans hst
    exact ⟨r, by simp only [Stamped.allow, hst'], h⟩
  · have hst' := h.state.symm.trans hst
    refine ⟨{ r with probing := true }, ?_, hs, h.state, h.failures, rfl, h.timers⟩
    rw [h.probing] at hp
    simp only [Stamped.allow, hst', hp, Bool.false_eq_true, if_false]

end Allow

section Settle

/-- A closed breaker takes any call but a probe, a half open one takes its probe only. -/
theorem settle_unmoved (h : r.state ≠ if p.probe then .halfOpen else .closed) (succeeded : Bool) :
    r.settle c now p succeeded = (r, []) := by
  rcases p with ⟨_ | _⟩ <;> unfold settle <;> split <;> simp_all

theorem settle_failed_last (hst : r.state = .closed)
    (hf : c.openingThreshold.toNat ≤ r.failures + 1) :
    r.settle c now ⟨false⟩ false
      = ({ r with
            state := .opened
            failures := r.failures + 1
            runStart := if r.failures = 0 then now else r.runStart
            openedAt := now }, [(now, .opened)]) := by
  simp only [settle, hst, hf, if_true]

theorem settle_failed_counted (hst : r.state = .closed)
    (hf : ¬ c.openingThreshold.toNat ≤ r.failures + 1) :
    r.settle c now ⟨false⟩ false
      = ({ r with
            failures := r.failures + 1
            runStart := if r.failures = 0 then now else r.runStart }, []) := by
  simp only [settle, hst, hf, if_false]

theorem Tracks.opens_iff (h : Tracks c r b timers) (hst : b.state = .closed) :
    c.openingThreshold.toNat ≤ r.failures + 1 ↔ b.failures.toNat + 1 = c.threshold := by
  rw [← h.sound.opens_iff hst, UInt32.le_iff_toNat_le, h.sound.failures_succ hst, h.failures]

theorem Tracks.fail (h : Tracks c r b timers) (hst : b.state = .closed) (now : Nat) :
    Agrees c now timers (b.fail c) (r.settle c now ⟨false⟩ false) := by
  have hst' : r.state = .closed := h.state.symm.trans hst
  have hsound := fail_sound h.sound hst
  have hsucc : (b.failures + 1).toNat = r.failures + 1 := by
    rw [h.sound.failures_succ hst, h.failures]
  by_cases hf : b.failures.toNat + 1 = c.threshold
  · rw [fail_last h.sound hst hf] at hsound ⊢
    rw [settle_failed_last hst' ((h.opens_iff hst).2 hf)]
    exact ⟨⟨hsound, rfl, hsucc, h.probing, rfl⟩, rfl⟩
  · rw [settle_failed_counted hst' (mt (h.opens_iff hst).1 hf)]
    by_cases h0 : b.failures = 0
    · rw [fail_first h.sound hst hf h0] at hsound ⊢
      rw [h0] at hsucc
      refine ⟨⟨hsound, h.state, hsucc, h.probing, ?_⟩, rfl⟩
      rw [awaited_forgive (by exact hst) (by exact (by decide : (1 : UInt32) ≠ 0))]
      simp [timersAfter, rearm, due, hst', h.failures_eq_zero.1 h0]
    · rw [fail_next h.sound hst hf h0] at hsound ⊢
      have h1 : b.failures + 1 ≠ 0 := by
        rw [← UInt32.toNat_inj.ne, hsucc]
        exact Nat.succ_ne_zero _
      refine ⟨⟨hsound, h.state, hsucc, h.probing, ?_⟩, rfl⟩
      rw [awaited_forgive (by exact hst) (by exact h1), timersAfter, if_neg Bool.false_ne_true,
        h.timers, awaited_forgive hst h0]
      simp [due, hst', mt h.failures_eq_zero.2 h0]

/-- A result leaves both alike, if it is not that of a probe nobody let through. -/
theorem Tracks.settle (h : Tracks c r b timers) (hp : p.probe = true → b.state = .halfOpen)
    (now : Nat) (succeeded : Bool) :
    Agrees c now timers (b.settle c p succeeded) (r.settle c now p succeeded) := by
  have hsound : Breaker.Sound c (b.settle c p succeeded).breaker := settle_sound h.sound hp
  rcases p with ⟨_ | _⟩
  · by_cases hst : b.state = .closed
    · have hst' := h.state.symm.trans hst
      cases succeeded with
      | false =>
        rw [settle_failed hst]
        exact h.fail hst now
      | true =>
        rw [settle_succeeded hst] at hsound ⊢
        simp only [Stamped.settle, hst']
        refine ⟨⟨hsound, hst, rfl, h.probing, ?_⟩, rfl⟩
        rw [awaited_closed (by exact hst)]
        rfl
    · rw [Breaker.settle_of_ne hst, settle_unmoved (by simpa [h.state] using hst)]
      exact ⟨h, rfl⟩
  · have hst := hp rfl
    have hst' := h.state.symm.trans hst
    cases succeeded with
    | false =>
      rw [settle_probe_failed hst] at hsound ⊢
      simp only [Stamped.settle, hst']
      exact ⟨⟨hsound, rfl, h.failures, rfl, rfl⟩, rfl⟩
    | true =>
      rw [settle_probe_succeeded hst] at hsound ⊢
      simp only [Stamped.settle, hst']
      exact ⟨⟨hsound, rfl, rfl, rfl, rfl⟩, rfl⟩

end Settle

section Fire

variable {limit : Nat} {t : Timer}

/-- There is nothing to make up for before a timer is due. -/
theorem Tracks.normalise_ahead (h : Tracks c r b timers) (ha : ∀ e ∈ timers, limit < e.1) :
    r.normalise c limit = (r, []) := by
  rw [h.timers] at ha
  unfold normalise
  split <;> rename_i hst
  · have hb := h.state.trans hst
    split_ifs with hdue
    · have h0 := mt h.failures_eq_zero.1 (Nat.pos_iff_ne_zero.1 hdue.1)
      rw [awaited_forgive hb h0] at ha
      have := ha _ List.mem_cons_self
      simp only [due, hst] at this
      omega
    · rfl
  · have hb := h.state.trans hst
    split_ifs with hdue
    · rw [awaited_opened hb] at ha
      have := ha _ List.mem_cons_self
      simp only [due, hst] at this
      omega
    · rfl
  · rfl

/-- A timer does in time what would be made up for, and no other timer is left. -/
theorem Tracks.fire (h : Tracks c r b timers) (ht : t ∈ b.awaited) (hd : r.due c ≤ limit) :
    Agrees c (r.due c) [] (b.fire t) (r.normalise c limit) := by
  have hsound := fire_sound h.sound t
  have hnone : timersAfter (r.due c) [] (b.fire t) = (b.fire t).breaker.awaited.map
      ((r.normalise c limit).1.due c, ·) := by
    rw [fire_awaited ht, timersAfter, fire_stops]
    rfl
  rcases mem_awaited ht with ⟨hst, h0, rfl⟩ | ⟨hst, rfl⟩
  · have hst' := h.state.symm.trans hst
    have hpos : 0 < r.failures := Nat.pos_iff_ne_zero.2 (mt h.failures_eq_zero.2 h0)
    simp only [due, hst'] at hd
    have hnorm : r.normalise c limit = ({ r with failures := 0 }, []) := by
      simp only [normalise, hst', hpos, hd, and_self, if_true]
    rw [hnorm] at hnone ⊢
    rw [fire_forgive hst] at hsound hnone ⊢
    exact ⟨⟨hsound, h.state, rfl, h.probing, hnone⟩, rfl⟩
  · have hst' := h.state.symm.trans hst
    simp only [due, hst'] at hd
    have hnorm : r.normalise c limit = ({ r with state := .halfOpen },
        [(r.openedAt + c.closingDelay.toNat, .halfOpened)]) := by
      simp only [normalise, hst', hd, if_true]
    have hp := h.sound.not_probing (by rw [hst]; decide)
    rw [hnorm] at hnone ⊢
    rw [fire_awaitProbe hst] at hsound hnone ⊢
    refine ⟨⟨hsound, rfl, h.failures, hp.symm.trans h.probing, hnone⟩, ?_⟩
    simp only [due, hst']
    rfl

end Fire

end Stamped

end AuctionGate
