import AuctionGate.Proofs.Breaker.Quiet
import Mathlib.Data.List.Basic
import Mathlib.Data.List.Induction

/-!
# Timers that come too late

A timer that has run out cannot be stopped any more, and it may reach the breaker in any later
state: in a new run of failures, or after a newer opening. The epoch tells it apart from the timer
that the breaker waits for. A timer of the current epoch is the one that was started last, and it
finds the state that it was started for; any other leaves the breaker as it is. So a run without
those others goes through the same states and tells observers the same (`run_stale`).
-/

namespace AuctionGate.Circuit

open Breaker

/-- The step that an event has the breaker take, if it brings anything back to it. -/
def taken? (c : Config) (s : Circuit) : Event → Option Step
  | .wait _ => none
  | .call => none
  | .settle id succeeded => (s.calls.lookup id).map (s.breaker.settle c · succeeded)
  | .drop id => (s.calls.lookup id).map (s.breaker.settle c · false)
  | .wake => none
  | .fire t => if t ∈ s.woken then some (s.breaker.fire t) else none

/-- The timer that is installed after a step at a time, where this one was before. -/
def installedBy (now : Nat) (installed : Option (Nat × Timer)) : Option Step →
    Option (Nat × Timer)
  | none => installed
  | some st =>
    if st.stops then st.started.map fun (delay, t) => (now + delay.toNat, t) else installed

def install (c : Config) (s : Circuit) (installed : Option (Nat × Timer)) (e : Event) :
    Option (Nat × Timer) :=
  installedBy s.now installed (s.taken? c e)

/-- The events of a run, each with the circuit that it finds. -/
def course (c : Config) : Circuit → List Event → List (Event × Circuit)
  | _, [] => []
  | s, e :: es => (e, s) :: course c (step c s e) es

/-- The timer that a run started last, with the time at which it is due, unless it was cancelled
since. -/
def installed (c : Config) (es : List Event) : Option (Nat × Timer) :=
  (course c {} es).foldl (fun u x => x.2.install c u x.1) none

/-- The event brings back a timer of another epoch than the current one. -/
def stale (s : Circuit) : Event → Bool
  | .fire t => t.epoch ≠ s.breaker.epoch
  | _ => false

/-- The events of a run but those that bring back timers of other epochs. -/
def fresh (c : Config) (s : Circuit) (es : List Event) : List Event :=
  ((course c s es).filter fun x => !x.2.stale x.1).map (·.1)

/-- The timers that belong to an epoch. -/
def ofEpoch (epoch : UInt64) (timers : List Timer) : List Timer := timers.filter (·.epoch = epoch)

/-- A circuit without the timers of other epochs that have run out. -/
def pruned (s : Circuit) : Circuit := { s with woken := ofEpoch s.breaker.epoch s.woken }

/-- What is installed is the timer that runs, or it has run out; and it is what the breaker waits
for, if it waits for anything, and is on its way then. -/
structure Installs (s : Circuit) (installed : Option (Nat × Timer)) : Prop where
  running : ∀ x, s.running = some x → installed = some x
  due : ∀ x, installed = some x → s.running = some x ∨ s.running = none ∧ x.1 ≤ s.now
  epoch : ∀ x, installed = some x → x.2.epoch = s.breaker.epoch
  awaited : ∀ t ∈ s.breaker.awaited, ∃ due, installed = some (due, t)
  onWay : ∀ t ∈ s.breaker.awaited, t ∈ s.pending

variable {c : Config} {s s' : Circuit} {e : Event} {t : Timer} {st : Step} {es : List Event}
  {u : Option (Nat × Timer)}

section Runs

theorem run_snoc (c : Config) (s : Circuit) (es : List Event) (e : Event) :
    run c s (es ++ [e]) = step c (run c s es) e := List.foldl_concat ..

theorem course_append (c : Config) : ∀ (es es' : List Event) (s : Circuit),
    course c s (es ++ es') = course c s es ++ course c (run c s es) es'
  | [], _, _ => rfl
  | e :: es, es', s => congrArg ((e, s) :: ·) (course_append c es es' (step c s e))

theorem installed_snoc (c : Config) (es : List Event) (e : Event) :
    installed c (es ++ [e]) = (run c {} es).install c (installed c es) e := by
  rw [installed, course_append, List.foldl_append]
  rfl

end Runs

section Installed

theorem installedBy_still (h : st.stops = false) (now : Nat) (u : Option (Nat × Timer)) :
    installedBy now u (some st) = u := by
  simp [installedBy, h]

theorem installedBy_stops (h : st.stops = true) (now : Nat) (u : Option (Nat × Timer)) :
    installedBy now u (some st) = st.started.map fun (delay, t) => (now + delay.toNat, t) := by
  simp [installedBy, h]

theorem Installs.hold_still (h : s.Installs u) (hf : st.Follows s.breaker.epoch)
    (hstop : st.stops = false) (ha : st.breaker.awaited ⊆ s.breaker.awaited) :
    (s.hold st).Installs u := by
  have he := hf.epoch_still hstop
  have hr := hold_running_still hf hstop
  refine ⟨fun x hx => h.running x (hr ▸ hx), fun x hx => ?_, fun x hx => ?_, fun t ht => ?_,
    fun t ht => ?_⟩
  · rw [hr]
    exact h.due x hx
  · exact (h.epoch x hx).trans he.symm
  · exact h.awaited t (ha ht)
  · rw [hold_pending_still hf hstop]
    exact h.onWay t (ha ht)

theorem installs_hold_stops (hf : st.Follows s.breaker.epoch) (hstop : st.stops = true)
    (ha : st.Arms s.breaker) :
    (s.hold st).Installs (st.started.map fun (delay, t) => (s.now + delay.toNat, t)) := by
  have hr := hold_running_stops (s := s) hstop
  have haw : (s.hold st).breaker.awaited = (st.started.map (·.2)).toList :=
    ha.trans (if_pos hstop)
  refine ⟨fun x hx => hr ▸ hx, fun x hx => .inl (hr.trans hx), fun x hx => ?_, fun t ht => ?_,
    fun t ht => ?_⟩
  · obtain ⟨⟨delay, t⟩, hst, rfl⟩ := Option.map_eq_some_iff.1 hx
    exact (hf.started _ _ hst).2
  · rw [haw, Option.mem_toList] at ht
    obtain ⟨⟨delay, t⟩, hst, rfl⟩ := Option.map_eq_some_iff.1 ht
    exact ⟨s.now + delay.toNat, congrArg _ hst⟩
  · rw [hold_pending_stops hstop, ← haw]
    exact List.mem_append_left _ ht

theorem Installs.bring (h : s.Installs u) (hs : Sound c s) (id : Nat) (succeeded : Bool) :
    (s.bring c id succeeded).Installs
      (installedBy s.now u ((s.calls.lookup id).map (s.breaker.settle c · succeeded))) := by
  unfold Circuit.bring
  split <;> rename_i hl <;> rw [hl]
  · exact h
  · rename_i p
    have ha := settle_arms hs.breaker (hs.halfOpen_of_lookup hl) succeeded
    have hf := settle_follows c p succeeded s.breaker
    have h' : ({ s with calls := s.calls.eraseP (·.1 == id) } : Circuit).Installs u :=
      ⟨h.running, h.due, h.epoch, h.awaited, h.onWay⟩
    rw [Option.map_some]
    cases hstop : (s.breaker.settle c p succeeded).stops with
    | false =>
      rw [installedBy_still hstop]
      have hsame : (s.breaker.settle c p succeeded).breaker.awaited = s.breaker.awaited := by
        simpa [Step.Arms, hstop] using ha
      exact h'.hold_still hf hstop fun _ ht => hsame ▸ ht
    | true =>
      rw [installedBy_stops hstop]
      exact installs_hold_stops (s := { s with calls := _ }) hf hstop ha

/-- A timer that reaches the breaker is waited for no longer, and no other is. -/
theorem fire_awaited_subset (b : Breaker) (t : Timer) :
    (b.fire t).breaker.awaited ⊆ b.awaited := by
  unfold Breaker.fire
  split_ifs
  · exact List.Subset.refl _
  · split
    · simp [Breaker.awaited, *]
    · simp [Breaker.awaited]
    · exact List.Subset.refl _

theorem Installs.fire (h : s.Installs u) (t : Timer) :
    ({ s with woken := s.woken.erase t }.hold (s.breaker.fire t)).Installs
      (installedBy s.now u (some (s.breaker.fire t))) := by
  have hf := fire_follows s.breaker t
  have hstop := fire_stops s.breaker t
  have he := hf.epoch_still hstop
  have hr := hold_running_still (s := { s with woken := s.woken.erase t }) hf hstop
  have ha := fire_awaited_subset s.breaker t
  rw [installedBy_still hstop]
  refine ⟨fun x hx => h.running x (hr ▸ hx), fun x hx => ?_,
    fun x hx => (h.epoch x hx).trans he.symm, fun t' ht' => h.awaited t' (ha ht'),
    fun t' ht' => ?_⟩
  · rw [hr]
    exact h.due x hx
  · -- The timer that is taken off the list is awaited no longer.
    have hne : t' ≠ t := by
      rintro rfl
      rw [show (hold _ _).breaker = (s.breaker.fire t').breaker from rfl,
        fire_awaited (ha ht')] at ht'
      cases ht'
    rw [hold_pending_still (s := { s with woken := s.woken.erase t }) hf hstop]
    have hmem := h.onWay t' (ha ht')
    simp only [pending, List.mem_append, List.mem_erase_of_ne hne] at hmem ⊢
    exact hmem

/-- Whatever happens, what is installed is the timer that was started last. -/
theorem Installs.step (h : s.Installs u) (hs : Sound c s) (e : Event) :
    (step c s e).Installs (s.install c u e) := by
  cases e with
  | wait ms =>
    refine ⟨h.running, fun x hx => (h.due x hx).imp_right ?_, h.epoch, h.awaited, h.onWay⟩
    exact And.imp_right fun hle => Nat.le_trans hle (Nat.le_add_right ..)
  | call =>
    simp only [Circuit.step, install, taken?]
    split
    · exact h
    · rename_i p b hall
      have ha := allow_awaited hall
      exact ⟨h.running, h.due, fun x hx => (h.epoch x hx).trans (allow_epoch hall).symm,
        fun t ht => h.awaited t (ha ▸ ht), fun t ht => h.onWay t (ha ▸ ht)⟩
  | settle id succeeded => exact h.bring hs id succeeded
  | drop id => exact h.bring hs id false
  | wake =>
    simp only [Circuit.step, install, taken?]
    split
    · exact h
    · rename_i due t hr
      split_ifs with hdue
      · refine ⟨fun _ hx => absurd hx.symm (Option.some_ne_none _), fun x hx => .inr ⟨rfl, ?_⟩,
          h.epoch, h.awaited, pending_woken hr ▸ h.onWay⟩
        obtain rfl : (due, t) = x := Option.some.inj ((h.running _ hr).symm.trans hx)
        exact hdue
      · exact h
  | fire t =>
    simp only [Circuit.step, install, taken?]
    split_ifs with hw
    · exact h.fire t
    · exact h

theorem installs_run (c : Config) (es : List Event) : (run c {} es).Installs (installed c es) := by
  induction es using List.reverseRecOn with
  | nil => exact ⟨nofun, nofun, nofun, nofun, nofun⟩
  | append_singleton es e ih =>
    rw [run_snoc, installed_snoc]
    exact ih.step (run_sound c es {} (sound_new c)) e

end Installed

section Stale

/-- A timer of another epoch is taken off the list, and that is all. -/
theorem step_stale (h : t.epoch ≠ s.breaker.epoch) :
    step c s (.fire t) = { s with woken := s.woken.erase t } := by
  simp only [step]
  split_ifs with hw
  · rw [fire_stale h.symm]
    rfl
  · rw [List.erase_of_not_mem hw]

theorem mem_ofEpoch {epoch : UInt64} {timers : List Timer} :
    t ∈ ofEpoch epoch timers ↔ t ∈ timers ∧ t.epoch = epoch := by
  simp [ofEpoch]

theorem ofEpoch_ofEpoch (epoch : UInt64) (timers : List Timer) :
    ofEpoch epoch (ofEpoch epoch timers) = ofEpoch epoch timers := by
  simp [ofEpoch]

theorem ofEpoch_cons_ofEpoch (epoch : UInt64) (t : Timer) (timers : List Timer) :
    ofEpoch epoch (t :: ofEpoch epoch timers) = ofEpoch epoch (t :: timers) := by
  simp [ofEpoch, List.filter_cons]

theorem ofEpoch_erase (epoch : UInt64) (timers : List Timer) (t : Timer) :
    ofEpoch epoch (timers.erase t) = (ofEpoch epoch timers).erase t :=
  List.erase_filter.symm

theorem pruned_stale (h : t.epoch ≠ s.breaker.epoch) : (step c s (.fire t)).pruned = s.pruned := by
  have hnot : t ∉ ofEpoch s.breaker.epoch s.woken := fun hmem => h (mem_ofEpoch.1 hmem).2
  rw [step_stale h]
  simp only [pruned, ofEpoch_erase, List.erase_of_not_mem hnot]

theorem mem_woken_pruned (h : t.epoch = s.breaker.epoch) : t ∈ s.pruned.woken ↔ t ∈ s.woken :=
  mem_ofEpoch.trans (and_iff_left h)

theorem pruned_pruned (s : Circuit) : s.pruned.pruned = s.pruned := by
  simp only [pruned, ofEpoch_ofEpoch]

/-- What a step leaves does not depend on timers of other epochs. -/
theorem pruned_hold (hin : s.InOrder) (hf : st.Follows s.breaker.epoch)
    (hb : (s.hold st).epochs < 2 ^ 64) : (s.hold st).pruned = (s.pruned.hold st).pruned := by
  have hwoken : ofEpoch st.breaker.epoch (ofEpoch s.breaker.epoch s.woken)
      = ofEpoch st.breaker.epoch s.woken := by
    cases hstop : st.stops with
    | false =>
      rw [hf.epoch_still hstop, ofEpoch_ofEpoch]
    | true =>
      -- In an epoch that only begins there is none left on either side.
      have hnone : ofEpoch st.breaker.epoch s.woken = [] := hin.filter_woken hf hstop hb
      rw [hnone, ofEpoch, ofEpoch, List.filter_comm]
      exact congrArg _ hnone
  simp only [pruned, hold, hwoken]

theorem pruned_bring (hin : s.InOrder) {id : Nat} {succeeded : Bool}
    (hb : (s.bring c id succeeded).epochs < 2 ^ 64) :
    (s.bring c id succeeded).pruned = (s.pruned.bring c id succeeded).pruned := by
  unfold bring at hb ⊢
  simp only [show s.pruned.calls = s.calls from rfl]
  split at hb <;> rename_i hl
  · exact (pruned_pruned s).symm
  · exact pruned_hold (s := { s with calls := s.calls.eraseP (·.1 == id) })
      ⟨hin.epoch, hin.old⟩ (settle_follows ..) hb

/-- Any other event does the same without the timers of other epochs. -/
theorem pruned_step (hin : s.InOrder) (hfresh : s.stale e = false)
    (hb : (step c s e).epochs < 2 ^ 64) :
    (step c s e).pruned = (step c s.pruned e).pruned := by
  cases e with
  | wait ms => exact (pruned_pruned _).symm
  | call =>
    simp only [step, show s.pruned.breaker = s.breaker from rfl]
    split
    · exact (pruned_pruned s).symm
    · rename_i p b hall
      simp only [pruned, allow_epoch hall, ofEpoch_ofEpoch]
  | settle id succeeded => exact pruned_bring hin hb
  | drop id => exact pruned_bring hin hb
  | wake =>
    simp only [step, show s.pruned.running = s.running from rfl,
      show s.pruned.now = s.now from rfl]
    split
    · exact (pruned_pruned s).symm
    · split_ifs
      · simp only [pruned, ofEpoch_cons_ofEpoch]
      · exact (pruned_pruned s).symm
  | fire t =>
    have ht : t.epoch = s.breaker.epoch := by simpa [stale] using hfresh
    simp only [step, mem_woken_pruned ht]
    split_ifs
    · have he := (fire_follows s.breaker t).epoch_still (fire_stops _ t)
      simp only [pruned, hold, he, ofEpoch_erase, ofEpoch_ofEpoch]
      rfl
    · exact (pruned_pruned s).symm

theorem bring_pruned_epochs (c : Config) (s : Circuit) (id : Nat) (succeeded : Bool) :
    (s.pruned.bring c id succeeded).epochs = (s.bring c id succeeded).epochs := by
  unfold bring
  simp only [show s.pruned.calls = s.calls from rfl]
  split <;> rfl

theorem step_pruned_epochs (hfresh : s.stale e = false) :
    (step c s.pruned e).epochs = (step c s e).epochs := by
  cases e with
  | wait ms => rfl
  | call =>
    simp only [step, show s.pruned.breaker = s.breaker from rfl]
    split <;> rfl
  | settle id succeeded => exact bring_pruned_epochs c s id succeeded
  | drop id => exact bring_pruned_epochs c s id false
  | wake =>
    simp only [step, show s.pruned.running = s.running from rfl,
      show s.pruned.now = s.now from rfl]
    split
    · rfl
    · split_ifs <;> rfl
  | fire t =>
    have ht : t.epoch = s.breaker.epoch := by simpa [stale] using hfresh
    simp only [step, mem_woken_pruned ht]
    split_ifs <;> rfl

theorem stale_congr (h : s'.pruned = s.pruned) : s'.stale e = s.stale e := by
  have he : s'.breaker.epoch = s.breaker.epoch := congrArg (·.breaker.epoch) h
  cases e with
  | fire t => simp only [stale, he]
  | _ => rfl

theorem epochs_congr (h : s'.pruned = s.pruned) (hfresh : s.stale e = false) :
    (step c s' e).epochs = (step c s e).epochs := by
  rw [← step_pruned_epochs hfresh, ← step_pruned_epochs ((stale_congr h).trans hfresh), h]

/-- Two circuits that differ in timers of other epochs only do the same. -/
theorem pruned_congr (hin : s.InOrder) (hin' : s'.InOrder) (h : s'.pruned = s.pruned)
    (hfresh : s.stale e = false) (hb : (step c s e).epochs < 2 ^ 64) :
    (step c s' e).pruned = (step c s e).pruned := by
  rw [pruned_step hin hfresh hb, ← h]
  exact pruned_step hin' ((stale_congr h).trans hfresh) (epochs_congr h hfresh ▸ hb)

theorem fresh_cons (c : Config) (s : Circuit) (e : Event) (es : List Event) :
    fresh c s (e :: es)
      = if s.stale e then fresh c (step c s e) es else e :: fresh c (step c s e) es := by
  cases h : s.stale e <;> simp [fresh, course, h]

/-- A run without the stale timers keeps beside the run with them. -/
theorem course_fresh (c : Config) : ∀ (es : List Event) (s s' : Circuit),
    InUse c s → InUse c s' → s'.pruned = s.pruned → (run c s es).epochs < 2 ^ 64 →
      (course c s' (fresh c s es)).map (fun x => (x.1, x.2.pruned))
          = ((course c s es).filter fun x => !x.2.stale x.1).map (fun x => (x.1, x.2.pruned))
        ∧ (run c s' (fresh c s es)).pruned = (run c s es).pruned
  | [], _, _, _, _, h, _ => ⟨rfl, h⟩
  | e :: es, s, s', hu, hu', h, hb => by
    have hb₀ : (step c s e).epochs < 2 ^ 64 :=
      Nat.lt_of_le_of_lt (run_epochs_le c es (step c s e)) hb
    rw [fresh_cons, course]
    cases hst : s.stale e with
    | true =>
      -- The timer is only taken off the list, so the other run stays where it is.
      have h' : s'.pruned = (step c s e).pruned := by
        cases e with
        | fire t => exact h.trans (pruned_stale (by simpa [stale] using hst)).symm
        | _ => cases hst
      obtain ⟨hcourse, hrun⟩ := course_fresh c es (step c s e) s' (hu.step hb₀) hu' h' hb
      refine ⟨?_, hrun⟩
      rw [if_pos rfl, List.filter_cons_of_neg (by simp [hst])]
      exact hcourse
    | false =>
      have h' := pruned_congr hu.timed.inOrder hu'.timed.inOrder h hst hb₀
      have hb₁ : (step c s' e).epochs < 2 ^ 64 := epochs_congr h hst ▸ hb₀
      obtain ⟨hcourse, hrun⟩ :=
        course_fresh c es (step c s e) (step c s' e) (hu.step hb₀) (hu'.step hb₁) h' hb
      refine ⟨?_, hrun⟩
      rw [if_neg Bool.false_ne_true, List.filter_cons_of_pos (by simp [hst]), course,
        List.map_cons, List.map_cons, hcourse, h]

end Stale

theorem Timed.live_length_le (ht : s.Timed) : s.live.length ≤ 1 := by
  rw [ht.live]
  unfold awaited
  split
  · split_ifs <;> simp
  · simp
  · simp

/-- Of the timers on their way at most one is of the current epoch: the one that was started last
and has not been cancelled. It finds the breaker in the state that it was started for. The others
change nothing, and a run without them is the same in all else. -/
theorem run_stale (hb : (run c {} es).epochs < 2 ^ 64) :
    let s := run c {} es
    (s.live.length ≤ 1 ∧ ∀ t ∈ s.live, ∃ due, installed c es = some (due, t))
      ∧ (∀ t, t.epoch ≠ s.breaker.epoch →
        step c s (.fire t) = { s with woken := s.woken.erase t }
          ∧ (step c s (.fire t)).live = s.live)
      ∧ (∀ t ∈ s.woken, t.epoch = s.breaker.epoch →
        t.action = .forgive ∧ s.breaker.state = .closed ∧ s.breaker.failures ≠ 0
          ∨ t.action = .awaitProbe ∧ s.breaker.state = .opened)
      ∧ (course c {} (fresh c {} es)).map (fun x => (x.1, x.2.pruned))
        = ((course c {} es).filter fun x => !x.2.stale x.1).map (fun x => (x.1, x.2.pruned))
      ∧ (run c {} (fresh c {} es)).pruned = s.pruned := by
  intro s
  have ht : s.Timed := run_timed c es {} timed_new (sound_new c) hb
  have hinst : s.Installs (installed c es) := installs_run c es
  refine ⟨⟨ht.live_length_le, fun t hmem => hinst.awaited t (ht.live ▸ hmem)⟩, fun t hne => ?_,
    fun t hw he => ?_, course_fresh c es {} {} (inUse_new c) (inUse_new c) rfl hb⟩
  · rw [step_stale hne]
    exact ⟨rfl, live_erase_stale hne.symm⟩
  · rcases mem_awaited (ht.live_erase_awaited hw he.symm).1 with ⟨hst, h0, rfl⟩ | ⟨hst, rfl⟩
    · exact .inl ⟨rfl, hst, h0⟩
    · exact .inr ⟨rfl, hst⟩

/-- The window of a first failure runs out just before a success ends the run, and its timer
reaches the breaker after the first failure of the next run. -/
def lateForgiveness : List Event :=
  [.call, .settle 0 false, .wait 100, .wake, .call, .settle 1 true, .call, .settle 2 false,
    .fire ⟨1, .forgive⟩]

/-- The failure of the next run is not forgiven before its time. -/
theorem run_stale_lateForgiveness :
    (run ⟨3, 100, 1000⟩ {} lateForgiveness).epochs < 2 ^ 64
      ∧ (run ⟨3, 100, 1000⟩ {} lateForgiveness).breaker.failures = 1
      ∧ (run ⟨3, 100, 1000⟩ {} lateForgiveness).live = [⟨3, .forgive⟩]
      ∧ installed ⟨3, 100, 1000⟩ lateForgiveness = some (200, ⟨3, .forgive⟩)
      ∧ fresh ⟨3, 100, 1000⟩ {} lateForgiveness = lateForgiveness.dropLast
      ∧ (run ⟨3, 100, 1000⟩ {} lateForgiveness.dropLast).pruned
        = (run ⟨3, 100, 1000⟩ {} lateForgiveness).pruned := by
  have hb : (run ⟨3, 100, 1000⟩ {} lateForgiveness).epochs < 2 ^ 64 := by decide
  have hfresh : fresh ⟨3, 100, 1000⟩ {} lateForgiveness = lateForgiveness.dropLast := by decide
  obtain ⟨-, -, -, -, hrun⟩ := run_stale hb
  exact ⟨hb, by decide, by decide, by decide, hfresh, hfresh ▸ hrun⟩

end AuctionGate.Circuit
