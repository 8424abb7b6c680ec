import AuctionGate.Proofs.Breaker.Steps

/-!
# Breakers in use

A circuit is a breaker with the calls that are out, the timer that runs, and the timers that have
run out but have not reached the breaker yet. A timer that runs can be stopped; one that has run
out cannot. Events come in any order: calls ask, come back or are given up, time passes, and a
timer runs out and reaches the breaker late, but never early. An event that cannot happen changes
nothing.

That a call is admitted and that its operation starts is one event: nothing is awaited between the
two, so no other event can come in. An operation is what happens from there until its call comes
back or is given up.

After any events the breaker is sound, and a probe is out exactly when the breaker says so
(`run_sound`). As long as epochs do not repeat, the timers of the current epoch on their way are
those that the breaker waits for (`run_timed`).
-/

namespace AuctionGate

open Breaker

structure Circuit where
  breaker : Breaker := {}
  now : Nat := 0
  admitted : Nat := 0
  calls : List (Nat × Permit) := []
  /-- The timer that runs, with the time at which it is due. -/
  running : Option (Nat × Timer) := none
  /-- The timers that have run out and have not reached the breaker, the latest first. -/
  woken : List Timer := []
  /-- What observers have heard, the latest first. -/
  heard : List (Nat × Transition) := []
  /-- How many epochs have begun after the first. -/
  epochs : Nat := 0
  deriving DecidableEq

namespace Circuit

inductive Event where
  | wait (ms : Nat)
  | call
  | settle (id : Nat) (succeeded : Bool)
  | drop (id : Nat)
  /-- The timer that runs runs out. -/
  | wake
  /-- A timer that has run out reaches the breaker. -/
  | fire (t : Timer)
  deriving DecidableEq

/-- Takes over what a step of the breaker leaves. -/
def hold (s : Circuit) (st : Step) : Circuit :=
  { s with
    breaker := st.breaker
    running := match st.started with
      | some (delay, t) => some (s.now + delay.toNat, t)
      | none => if st.stops then none else s.running
    heard := ((st.change.bind Change.transition?).map (s.now, ·)).toList ++ s.heard
    epochs := s.epochs + st.stops.toNat }

/-- Brings the result of a call to the breaker, if the call is out. -/
def bring (c : Config) (s : Circuit) (id : Nat) (succeeded : Bool) : Circuit :=
  match s.calls.lookup id with
  | none => s
  | some p =>
    { s with calls := s.calls.eraseP (·.1 == id) }.hold (s.breaker.settle c p succeeded)

def step (c : Config) (s : Circuit) : Event → Circuit
  | .wait ms => { s with now := s.now + ms }
  | .call =>
    match s.breaker.allow with
    | none => s
    | some (p, b) =>
      { s with breaker := b, admitted := s.admitted + 1, calls := s.calls ++ [(s.admitted, p)] }
  | .settle id succeeded => s.bring c id succeeded
  | .drop id => s.bring c id false
  | .wake =>
    match s.running with
    | none => s
    | some (due, t) => if due ≤ s.now then { s with running := none, woken := t :: s.woken } else s
  | .fire t =>
    if t ∈ s.woken then { s with woken := s.woken.erase t }.hold (s.breaker.fire t) else s

def run (c : Config) (s : Circuit) (es : List Event) : Circuit := es.foldl (step c) s

/-- The timers on their way to the breaker. -/
def pending (s : Circuit) : List Timer := (s.running.map (·.2)).toList ++ s.woken

/-- Those of them that belong to the current epoch. -/
def live (s : Circuit) : List Timer := s.pending.filter (·.epoch = s.breaker.epoch)

def probesOut (s : Circuit) : Nat := s.calls.countP (·.2.probe)

/-- The epoch is counted, and no timer is ahead of it. -/
structure InOrder (s : Circuit) : Prop where
  epoch : s.breaker.epoch.toNat = s.epochs
  old : ∀ t ∈ s.pending, t.epoch.toNat ≤ s.epochs

/-- Calls stand in the order of their numbers, which are never used again. -/
structure Numbered (s : Circuit) : Prop where
  sorted : (s.calls.map (·.1)).Pairwise (· < ·)
  below : ∀ q ∈ s.calls, q.1 < s.admitted

/-- The breaker is sound, and it knows whether its probe is out. -/
structure Sound (c : Config) (s : Circuit) : Prop where
  breaker : Breaker.Sound c s.breaker
  probes : s.probesOut = s.breaker.probing.toNat

/-- The timers of the current epoch on their way are those that the breaker waits for. -/
structure Timed (s : Circuit) : Prop where
  inOrder : s.InOrder
  live : s.live = s.breaker.awaited

variable {c : Config} {s : Circuit} {st : Step} {e : Event} {t : Timer} {p : Permit} {id : Nat}
  {succeeded : Bool}

theorem sound_new (c : Config) : Sound c {} := ⟨Breaker.sound_new c, rfl⟩

theorem timed_new : Timed {} := ⟨⟨rfl, nofun⟩, rfl⟩

section Hold

theorem hold_running_still (hf : st.Follows s.breaker.epoch) (h : st.stops = false) :
    (s.hold st).running = s.running := by
  simp [hold, hf.started_eq_none h, h]

theorem hold_running_stops (h : st.stops = true) :
    (s.hold st).running = st.started.map fun (delay, t) => (s.now + delay.toNat, t) := by
  rcases hst : st.started with _ | ⟨delay, t⟩ <;> simp [hold, hst, h]

theorem hold_pending_still (hf : st.Follows s.breaker.epoch) (h : st.stops = false) :
    (s.hold st).pending = s.pending := by
  rw [pending, hold_running_still hf h]
  rfl

theorem hold_pending_stops (h : st.stops = true) :
    (s.hold st).pending = (st.started.map (·.2)).toList ++ s.woken := by
  rw [pending, hold_running_stops h, Option.map_map]
  rfl

/-- The epoch of a step that stops the timer has not been before. -/
theorem InOrder.epoch_succ (h : s.InOrder) (hf : st.Follows s.breaker.epoch)
    (hstop : st.stops = true) (hb : (s.hold st).epochs < 2 ^ 64) :
    st.breaker.epoch.toNat = s.epochs + 1 := by
  have hb' : s.epochs + 1 < 2 ^ 64 := by simpa [hold, hstop] using hb
  rw [hf.epoch, hstop, if_pos rfl, UInt64.toNat_add, h.epoch]
  simp only [UInt64.toNat_one]
  omega

theorem InOrder.hold (h : s.InOrder) (hf : st.Follows s.breaker.epoch)
    (hb : (s.hold st).epochs < 2 ^ 64) : (s.hold st).InOrder := by
  cases hstop : st.stops with
  | false =>
    refine ⟨?_, fun t ht => ?_⟩
    · rw [show (s.hold st).breaker.epoch = st.breaker.epoch from rfl, hf.epoch_still hstop]
      simpa [Circuit.hold, hstop] using h.epoch
    · rw [hold_pending_still hf hstop] at ht
      simpa [Circuit.hold, hstop] using h.old t ht
  | true =>
    have he := h.epoch_succ hf hstop hb
    refine ⟨by simpa [Circuit.hold, hstop] using he, fun t ht => ?_⟩
    rw [hold_pending_stops hstop, List.mem_append, Option.mem_toList] at ht
    simp only [Circuit.hold, hstop, Bool.toNat_true]
    rcases ht with ht | ht
    · obtain ⟨⟨delay, t⟩, hst, rfl⟩ := Option.map_eq_some_iff.1 ht
      rw [(hf.started _ _ hst).2]
      exact Nat.le_of_eq he
    · have := h.old t (List.mem_append_right _ ht)
      omega

/-- No timer that has run out carries an epoch that only begins. -/
theorem InOrder.filter_woken (h : s.InOrder) (hf : st.Follows s.breaker.epoch)
    (hstop : st.stops = true) (hb : (s.hold st).epochs < 2 ^ 64) :
    s.woken.filter (·.epoch = st.breaker.epoch) = [] := by
  have he := h.epoch_succ hf hstop hb
  refine List.filter_eq_nil_iff.2 fun t ht hne => ?_
  have := h.old t (List.mem_append_right _ ht)
  rw [of_decide_eq_true hne] at this
  omega

/-- A step that stops the timer leaves of the timers only what it starts. -/
theorem InOrder.live_hold (h : s.InOrder) (hf : st.Follows s.breaker.epoch)
    (hb : (s.hold st).epochs < 2 ^ 64) :
    (s.hold st).live = if st.stops then (st.started.map (·.2)).toList else s.live := by
  cases hstop : st.stops with
  | false =>
    have he := hf.epoch_still hstop
    simp only [live, hold_pending_still hf hstop, Bool.false_eq_true, if_false]
    rw [show (s.hold st).breaker.epoch = s.breaker.epoch from he]
  | true =>
    have hwoken := h.filter_woken hf hstop hb
    have hstarted : (st.started.map (·.2)).toList.filter (·.epoch = st.breaker.epoch)
        = (st.started.map (·.2)).toList := by
      refine List.filter_eq_self.2 fun t ht => ?_
      obtain ⟨⟨delay, t⟩, hst, rfl⟩ := Option.map_eq_some_iff.1 (Option.mem_toList.1 ht)
      exact decide_eq_true (hf.started _ _ hst).2
    rw [live, hold_pending_stops hstop, List.filter_append, if_pos rfl]
    rw [show (s.hold st).breaker = st.breaker from rfl, hstarted, hwoken, List.append_nil]

end Hold

section Calls

/-- A call that is out stands once before it is brought back. -/
theorem lookup_calls (h : s.calls.lookup id = some p) :
    ∃ l l', s.calls = l ++ (id, p) :: l' ∧ s.calls.eraseP (·.1 == id) = l ++ l' := by
  obtain ⟨l, l', hl, hne⟩ := List.lookup_eq_some_iff.1 h
  refine ⟨l, l', hl, ?_⟩
  have hnot : ∀ q ∈ l, ¬ (q.1 == id) = true := by
    intro q hq heq
    have := hne q hq
    simp only [bne_iff_ne, ne_eq, beq_iff_eq] at this heq
    exact this heq.symm
  rw [hl, List.eraseP_append_right _ hnot, List.eraseP_cons_of_pos (by simp)]

theorem mem_of_lookup (h : s.calls.lookup id = some p) : (id, p) ∈ s.calls := by
  obtain ⟨l, l', hl, -⟩ := lookup_calls h
  rw [hl]
  exact List.mem_append_right _ List.mem_cons_self

theorem Numbered.lookup (hn : s.Numbered) (h : (id, p) ∈ s.calls) :
    s.calls.lookup id = some p := by
  obtain ⟨l, l', hl⟩ := List.append_of_mem h
  refine List.lookup_eq_some_iff.2 ⟨l, l', hl, fun q hq => ?_⟩
  have hsorted := hn.sorted
  rw [hl, List.map_append, List.map_cons, List.pairwise_append] at hsorted
  have hlt := hsorted.2.2 q.1 (List.mem_map_of_mem hq) id List.mem_cons_self
  simp only [bne_iff_ne, ne_eq]
  omega

theorem probesOut_eraseP (h : s.calls.lookup id = some p) :
    (s.calls.eraseP (·.1 == id)).countP (·.2.probe) + p.probe.toNat = s.probesOut := by
  obtain ⟨l, l', hl, he⟩ := lookup_calls h
  rw [he, probesOut, hl]
  rcases p with ⟨_ | _⟩ <;> simp [List.countP_append]
  omega

/-- A probe that is out is the one that the breaker has marked. -/
theorem Sound.probing (hs : Sound c s) (h : (id, p) ∈ s.calls) (hp : p.probe = true) :
    s.breaker.probing = true := by
  have hpos : 0 < s.probesOut := List.countP_pos_iff.2 ⟨(id, p), h, hp⟩
  rw [hs.probes] at hpos
  by_contra hne
  rw [Bool.not_eq_true] at hne
  rw [hne] at hpos
  exact absurd hpos (by decide)

theorem Sound.probe_out (hs : Sound c s) (h : s.breaker.probing = true) :
    ∃ id, (id, ⟨true⟩) ∈ s.calls := by
  have hpos : 0 < s.probesOut := by
    rw [hs.probes, h]
    decide
  obtain ⟨⟨id, p⟩, hq, hp⟩ := List.countP_pos_iff.1 hpos
  rcases p with ⟨_ | _⟩
  · cases hp
  · exact ⟨id, hq⟩

end Calls

section Steps

/-- Only the probe is out as a probe, so it finds the breaker half open. -/
theorem Sound.halfOpen_of_lookup (hs : Sound c s) (h : s.calls.lookup id = some p)
    (hp : p.probe = true) : s.breaker.state = .halfOpen :=
  hs.breaker.probing (hs.probing (mem_of_lookup h) hp)

theorem Sound.bring (hs : Sound c s) : Sound c (s.bring c id succeeded) := by
  unfold Circuit.bring
  split
  · exact hs
  · rename_i p hp
    refine ⟨settle_sound hs.breaker (hs.halfOpen_of_lookup hp), ?_⟩
    have hout := probesOut_eraseP hp
    rw [hs.probes] at hout
    rw [show (hold _ _).breaker = (s.breaker.settle c p succeeded).breaker from rfl,
      settle_probing]
    show (s.calls.eraseP (·.1 == id)).countP (·.2.probe) = _
    cases hpp : p.probe with
    | false => simpa [hpp] using hout
    | true =>
      rw [hpp, hs.probing (mem_of_lookup hp) hpp] at hout
      simpa using hout

theorem Timed.bring (ht : s.Timed) (hs : Sound c s)
    (hb : (s.bring c id succeeded).epochs < 2 ^ 64) : (s.bring c id succeeded).Timed := by
  unfold Circuit.bring at hb ⊢
  split at hb
  · exact ht
  · rename_i p hp
    have hin : ({ s with calls := s.calls.eraseP (·.1 == id) } : Circuit).InOrder :=
      ⟨ht.inOrder.epoch, ht.inOrder.old⟩
    have hf := settle_follows c p succeeded s.breaker
    refine ⟨hin.hold hf hb, ?_⟩
    rw [hin.live_hold hf hb]
    rw [show ({ s with calls := s.calls.eraseP (·.1 == id) } : Circuit).live
      = s.breaker.awaited from ht.live]
    exact (settle_arms hs.breaker (hs.halfOpen_of_lookup hp) succeeded).symm

theorem InOrder.erase (h : s.InOrder) (t : Timer) :
    ({ s with woken := s.woken.erase t } : Circuit).InOrder :=
  ⟨h.epoch, fun t' ht => h.old t' (by
    simp only [pending, List.mem_append] at ht ⊢
    exact ht.imp_right List.mem_of_mem_erase)⟩

theorem live_erase (s : Circuit) (t : Timer) :
    ({ s with woken := s.woken.erase t } : Circuit).live
      = (s.running.map (·.2)).toList.filter (·.epoch = s.breaker.epoch)
        ++ (s.woken.filter (·.epoch = s.breaker.epoch)).erase t := by
  simp only [live, pending, List.filter_append, List.erase_filter]

theorem live_erase_stale (he : s.breaker.epoch ≠ t.epoch) :
    ({ s with woken := s.woken.erase t } : Circuit).live = s.live := by
  have hnot : t ∉ s.woken.filter (·.epoch = s.breaker.epoch) := fun hmem =>
    he (of_decide_eq_true (List.mem_filter.1 hmem).2).symm
  rw [live_erase, List.erase_of_not_mem hnot]
  simp only [live, pending, List.filter_append]

/-- Of the timers of the current epoch there is at most one, so none is left when it is gone. -/
theorem Timed.live_erase_awaited (ht : s.Timed) (hw : t ∈ s.woken)
    (he : s.breaker.epoch = t.epoch) :
    t ∈ s.breaker.awaited ∧ ({ s with woken := s.woken.erase t } : Circuit).live = [] := by
  have hmem : t ∈ s.woken.filter (·.epoch = s.breaker.epoch) :=
    List.mem_filter.2 ⟨hw, decide_eq_true he.symm⟩
  have hlive := ht.live
  simp only [Circuit.live, pending, List.filter_append] at hlive
  have haw : t ∈ s.breaker.awaited := hlive ▸ List.mem_append_right _ hmem
  refine ⟨haw, ?_⟩
  rw [awaited_eq_singleton haw] at hlive
  rw [live_erase]
  rcases List.append_eq_singleton_iff.1 hlive with ⟨hr, hw⟩ | ⟨-, hw⟩
  · rw [hr, hw]
    simp
  · rw [hw] at hmem
    cases hmem

/-- A timer that reaches the breaker is one it waits for, or belongs to an epoch that is over. -/
theorem Timed.fire (ht : s.Timed) (hw : t ∈ s.woken)
    (hb : ({ s with woken := s.woken.erase t }.hold (s.breaker.fire t)).epochs < 2 ^ 64) :
    ({ s with woken := s.woken.erase t }.hold (s.breaker.fire t)).Timed := by
  have hin := ht.inOrder.erase t
  by_cases he : s.breaker.epoch = t.epoch
  · obtain ⟨haw, hnone⟩ := ht.live_erase_awaited hw he
    have hf := fire_follows s.breaker t
    refine ⟨hin.hold hf hb, ?_⟩
    rw [hin.live_hold hf hb, fire_stops, if_neg Bool.false_ne_true, hnone]
    exact (fire_awaited haw).symm
  · rw [fire_stale he]
    exact ⟨hin, (live_erase_stale he).trans ht.live⟩

theorem Sound.call (hs : Sound c s) : Sound c (step c s .call) := by
  simp only [step]
  split
  · exact hs
  · rename_i p b hall
    refine ⟨allow_sound hs.breaker hall, ?_⟩
    have hprobes := hs.probes
    simp only [probesOut, List.countP_append] at hprobes ⊢
    rcases allow_cases hall with ⟨-, rfl, rfl⟩ | ⟨-, hp, rfl, rfl⟩
    · simp [hprobes]
    · simp [hprobes, hp]

theorem Timed.call (ht : s.Timed) : (step c s .call).Timed := by
  simp only [step]
  split
  · exact ht
  · rename_i p b hall
    refine ⟨⟨?_, ht.inOrder.old⟩, ?_⟩
    · rw [allow_epoch hall]
      exact ht.inOrder.epoch
    · rw [allow_awaited hall]
      refine Eq.trans ?_ ht.live
      simp only [Circuit.live, pending, allow_epoch hall]

/-- A timer that runs out is still on its way. -/
theorem pending_woken {due : Nat} (h : s.running = some (due, t)) :
    ({ s with running := none, woken := t :: s.woken } : Circuit).pending = s.pending := by
  simp [pending, h]

theorem Timed.wake (ht : s.Timed) : (step c s .wake).Timed := by
  simp only [step]
  split
  · exact ht
  · rename_i due t hr
    split_ifs
    · have hpend := pending_woken hr
      refine ⟨⟨ht.inOrder.epoch, ?_⟩, ?_⟩
      · rw [hpend]
        exact ht.inOrder.old
      · rw [Circuit.live, hpend]
        exact ht.live
    · exact ht

theorem bring_epochs_le (c : Config) (s : Circuit) (id : Nat) (succeeded : Bool) :
    s.epochs ≤ (s.bring c id succeeded).epochs := by
  unfold Circuit.bring
  split
  · exact Nat.le_refl _
  · exact Nat.le_add_right ..

theorem step_epochs_le (c : Config) (s : Circuit) (e : Event) :
    s.epochs ≤ (step c s e).epochs := by
  cases e with
  | wait ms => exact Nat.le_refl _
  | settle id succeeded => exact bring_epochs_le c s id succeeded
  | drop id => exact bring_epochs_le c s id false
  | call =>
    simp only [step]
    split <;> exact Nat.le_refl _
  | wake =>
    simp only [step]
    split
    · exact Nat.le_refl _
    · split_ifs <;> exact Nat.le_refl _
  | fire t =>
    simp only [step]
    split_ifs
    · exact Nat.le_add_right ..
    · exact Nat.le_refl _

theorem run_epochs_le (c : Config) : ∀ (es : List Event) (s : Circuit),
    s.epochs ≤ (run c s es).epochs
  | [], _ => Nat.le_refl _
  | e :: es, s => Nat.le_trans (step_epochs_le c s e) (run_epochs_le c es (step c s e))

theorem step_sound (hs : Sound c s) : Sound c (step c s e) := by
  cases e with
  | wait ms => exact ⟨hs.breaker, hs.probes⟩
  | call => exact hs.call
  | settle id succeeded => exact hs.bring
  | drop id => exact hs.bring
  | wake =>
    simp only [step]
    split
    · exact hs
    · split_ifs
      · exact ⟨hs.breaker, hs.probes⟩
      · exact hs
  | fire t =>
    simp only [step]
    split_ifs
    · exact ⟨fire_sound hs.breaker t, hs.probes.trans
        (congrArg _ (fire_probing hs.breaker t).symm)⟩
    · exact hs

theorem step_timed (ht : s.Timed) (hs : Sound c s) (hb : (step c s e).epochs < 2 ^ 64) :
    (step c s e).Timed := by
  cases e with
  | wait ms => exact ⟨⟨ht.inOrder.epoch, ht.inOrder.old⟩, ht.live⟩
  | call => exact ht.call
  | settle id succeeded => exact ht.bring hs hb
  | drop id => exact ht.bring hs hb
  | wake => exact ht.wake
  | fire t =>
    simp only [step] at hb ⊢
    split_ifs at hb ⊢ with hw
    · exact ht.fire hw hb
    · exact ht

theorem run_sound (c : Config) : ∀ (es : List Event) (s : Circuit), Sound c s →
    Sound c (run c s es)
  | [], _, hs => hs
  | e :: es, s, hs => run_sound c es (step c s e) (step_sound hs)

/-- The timers fit the breaker as long as epochs do not repeat. -/
theorem run_timed (c : Config) : ∀ (es : List Event) (s : Circuit), s.Timed → Sound c s →
    (run c s es).epochs < 2 ^ 64 → (run c s es).Timed
  | [], _, ht, _, _ => ht
  | e :: es, s, ht, hs, hb =>
    have hstep : (step c s e).epochs < 2 ^ 64 :=
      Nat.lt_of_le_of_lt (run_epochs_le c es (step c s e)) hb
    run_timed c es (step c s e) (step_timed ht hs hstep) (step_sound hs) hb

theorem Numbered.bring (hn : s.Numbered) : (s.bring c id succeeded).Numbered := by
  unfold Circuit.bring
  split
  · exact hn
  · exact ⟨hn.sorted.sublist (List.eraseP_sublist.map _),
      fun q hq => hn.below q (List.mem_of_mem_eraseP hq)⟩

theorem Numbered.call (hn : s.Numbered) : (step c s .call).Numbered := by
  simp only [step]
  split
  · exact hn
  · refine ⟨?_, fun q hq => ?_⟩
    · rw [List.map_append, List.pairwise_append]
      refine ⟨hn.sorted, List.pairwise_singleton .., fun i hi j hj => ?_⟩
      obtain ⟨q, hq, rfl⟩ := List.mem_map.1 hi
      simp only [List.map_cons, List.map_nil, List.mem_singleton] at hj
      exact hj ▸ hn.below q hq
    · rcases List.mem_append.1 hq with hq | hq
      · exact Nat.lt_succ_of_lt (hn.below q hq)
      · rw [List.mem_singleton.1 hq]
        exact Nat.lt_succ_self s.admitted

theorem step_numbered (hn : s.Numbered) : (step c s e).Numbered := by
  cases e with
  | wait ms => exact ⟨hn.sorted, hn.below⟩
  | call => exact hn.call
  | settle id succeeded => exact hn.bring
  | drop id => exact hn.bring
  | wake =>
    simp only [step]
    split
    · exact hn
    · split_ifs
      · exact ⟨hn.sorted, hn.below⟩
      · exact hn
  | fire t =>
    simp only [step]
    split_ifs
    · exact ⟨hn.sorted, hn.below⟩
    · exact hn

theorem run_numbered (c : Config) : ∀ (es : List Event) (s : Circuit), s.Numbered →
    (run c s es).Numbered
  | [], _, hn => hn
  | e :: es, s, hn => run_numbered c es (step c s e) (step_numbered hn)

theorem numbered_new : Numbered {} := ⟨.nil, nofun⟩

end Steps

end Circuit

end AuctionGate
