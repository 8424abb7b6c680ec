import AuctionGate.Proofs.Breaker.Lateness
import AuctionGate.Proofs.Breaker.Phases

/-!
# Quiet periods

Every run of a breaker in use is a path through the phases (`history_path`), in whatever order its
calls come and come back and however late its timers are: what a phase shows of the breaker, its
calls and its timers is kept up by each event (`Shows.step`). So the service behind a breaker that
has opened gets no more than one call for each closing delay (`run_quiet`).
-/

namespace AuctionGate.Circuit

open Breaker

/-- No timer of the current epoch is due before this time. -/
structure NotBefore (s : Circuit) (time : Nat) : Prop where
  running : ∀ due t, s.running = some (due, t) → t.epoch = s.breaker.epoch → time ≤ due
  woken : ∀ t ∈ s.woken, t.epoch = s.breaker.epoch → time ≤ s.now

/-- What a circuit is like in a phase. -/
def Shows (c : Config) (s : Circuit) : Phase → Prop
  | .closed => s.breaker.state = .closed
  | .opened since => s.breaker.state = .opened ∧ s.NotBefore (since + c.closingDelay.toNat)
  | .halfOpen none => s.breaker.state = .halfOpen ∧ s.breaker.probing = false
  | .halfOpen (some id) => s.breaker.state = .halfOpen ∧ (id, ⟨true⟩) ∈ s.calls

/-- What holds of a circuit after any events. -/
structure InUse (c : Config) (s : Circuit) : Prop where
  sound : Sound c s
  timed : s.Timed
  numbered : s.Numbered

/-- A history that leads from a phase to the one that a circuit shows. -/
def LeadsTo (c : Config) (φ : Phase) (h : List Entry) (s : Circuit) : Prop :=
  ∃ φ', Path c.closingDelay.toNat φ h φ' ∧ Shows c s φ'

variable {c : Config} {s s' : Circuit} {φ : Phase} {x : Entry} {id id' : Nat} {t : Timer}
  {succeeded : Bool}

section Shows

theorem Shows.state (hφ : Shows c s φ) : s.breaker.state = φ.state := by
  match φ, hφ with
  | .closed, hφ => exact hφ
  | .opened _, hφ => exact hφ.1
  | .halfOpen none, hφ => exact hφ.1
  | .halfOpen (some _), hφ => exact hφ.1

theorem Shows.stay (hφ : Shows c s φ) (hb : s'.breaker = s.breaker)
    (hn : ∀ time, s.NotBefore time → s'.NotBefore time)
    (hc : ∀ id, (id, ⟨true⟩) ∈ s.calls → (id, ⟨true⟩) ∈ s'.calls) : Shows c s' φ := by
  match φ, hφ with
  | .closed, hst => exact (congrArg Breaker.state hb).trans hst
  | .opened _, ⟨hst, hnot⟩ => exact ⟨(congrArg Breaker.state hb).trans hst, hn _ hnot⟩
  | .halfOpen none, ⟨hst, hp⟩ =>
    exact ⟨(congrArg Breaker.state hb).trans hst, (congrArg Breaker.probing hb).trans hp⟩
  | .halfOpen (some id), ⟨hst, hid⟩ => exact ⟨(congrArg Breaker.state hb).trans hst, hc id hid⟩

theorem LeadsTo.still (hφ : Shows c s φ) : LeadsTo c φ [] s := ⟨φ, .nil, hφ⟩

theorem LeadsTo.single {φ' : Phase} (hs : Phase.Step c.closingDelay.toNat φ x φ')
    (hφ : Shows c s φ') : LeadsTo c φ [x] s := ⟨φ', .single hs, hφ⟩

end Shows

section Steps

theorem Shows.wait (hφ : Shows c s φ) (ms : Nat) : Shows c (step c s (.wait ms)) φ := by
  refine hφ.stay rfl (fun time hn => ⟨hn.running, fun t ht he => ?_⟩) fun _ => id
  exact Nat.le_trans (hn.woken t ht he) (Nat.le_add_right ..)

theorem Shows.wake (hφ : Shows c s φ) : Shows c (step c s .wake) φ := by
  simp only [step]
  split
  · exact hφ
  · rename_i due t hr
    split_ifs with hdue
    · refine hφ.stay rfl (fun time hn =>
        ⟨fun _ _ h => absurd h.symm (Option.some_ne_none _), fun t' ht he => ?_⟩) fun _ => id
      rcases List.mem_cons.1 ht with rfl | ht
      · exact Nat.le_trans (hn.running due t' hr he) hdue
      · exact hn.woken t' ht he
    · exact hφ

theorem Shows.call (hu : InUse c s) (hφ : Shows c s φ) :
    LeadsTo c φ (s.logged? c .call).toList (step c s .call) := by
  match φ, hφ with
  | .closed, hφ =>
    have hallow := allow_closed hφ
    simp only [logged?, step, hallow]
    exact .single .start hφ
  | .opened _, hφ =>
    have hallow := allow_opened hφ.1
    simp only [logged?, step, hallow]
    exact .single (.still rfl rfl) hφ
  | .halfOpen none, ⟨hst, hp⟩ =>
    have hallow := allow_halfOpen hst
    rw [if_neg (by simp [hp])] at hallow
    simp only [logged?, step, hallow]
    exact .single .probe ⟨hst, List.mem_append_right _ List.mem_cons_self⟩
  | .halfOpen (some id), ⟨hst, hid⟩ =>
    have hallow := allow_halfOpen hst
    rw [if_pos (hu.sound.probing hid rfl)] at hallow
    simp only [logged?, step, hallow]
    exact .single (.still rfl rfl) ⟨hst, hid⟩

/-- With its probe out a half open breaker has no second one. -/
theorem Sound.probe_unique (hs : Sound c s) (hl : s.calls.lookup id = some ⟨true⟩)
    (h : (id', ⟨true⟩) ∈ s.calls) : id' = id := by
  by_contra hne
  have hout := probesOut_eraseP hl
  have hleft : (id', ⟨true⟩) ∈ s.calls.eraseP (·.1 == id) :=
    (List.mem_eraseP_of_neg (by simpa using hne)).2 h
  have hpos : 0 < (s.calls.eraseP (·.1 == id)).countP (·.2.probe) :=
    List.countP_pos_iff.2 ⟨_, hleft, rfl⟩
  have hle := Bool.toNat_le s.breaker.probing
  rw [hs.probes] at hout
  simp only [Bool.toNat_true] at hout
  omega

theorem InOrder.shows_trip {b : Breaker} (ho : s.InOrder) (he : b.epoch = s.breaker.epoch)
    (hb : (s.hold (trip c b)).epochs < 2 ^ 64) : Shows c (s.hold (trip c b)) (.opened s.now) := by
  have hf : (trip c b).Follows s.breaker.epoch := he ▸ rearm_follows ..
  refine ⟨rfl, fun due t hr _ => ?_, fun t ht hte => ?_⟩
  · cases hr
    exact Nat.le_refl _
  · -- A timer that has run out before belongs to an earlier epoch.
    have hsucc := ho.epoch_succ hf rfl hb
    have hold := ho.old t (List.mem_append_right _ ht)
    rw [hte] at hold
    exact absurd (hsucc ▸ hold) (Nat.not_succ_le_self _)

theorem InOrder.erase_call (ho : s.InOrder) :
    ({ s with calls := s.calls.eraseP (·.1 == id) } : Circuit).InOrder :=
  ⟨ho.epoch, ho.old⟩

theorem loggedReturn?_of_lookup {p : Permit} (hl : s.calls.lookup id = some p) :
    s.loggedReturn? c id succeeded = some ⟨s.now, .returned id,
      (s.breaker.settle c p succeeded).change.bind Change.transition?⟩ := by
  rw [loggedReturn?, hl]
  rfl

/-- Only a failure that reaches the threshold of a closed breaker changes more than a count. -/
theorem Shows.bring_call (hu : InUse c s) (hφ : Shows c s φ)
    (hl : s.calls.lookup id = some ⟨false⟩) (hb : (s.bring c id succeeded).epochs < 2 ^ 64) :
    LeadsTo c φ (s.loggedReturn? c id succeeded).toList (s.bring c id succeeded) := by
  rw [loggedReturn?_of_lookup hl]
  by_cases hst : s.breaker.state = .closed
  · obtain rfl := Phase.eq_closed (hφ.state.symm.trans hst)
    rw [bring_of_lookup hl] at hb ⊢
    cases succeeded with
    | true =>
      rw [settle_succeeded hst]
      exact .single (.still rfl rfl) hst
    | false =>
      rw [settle_failed hst] at hb ⊢
      by_cases hf : s.breaker.failures.toNat + 1 = c.threshold
      · rw [fail_last hu.sound.breaker hst hf] at hb ⊢
        exact .single .trip (hu.timed.inOrder.erase_call.shows_trip rfl hb)
      · by_cases h0 : s.breaker.failures = 0
        · rw [fail_first hu.sound.breaker hst hf h0]
          exact .single (.still rfl rfl) hst
        · rw [fail_next hu.sound.breaker hst hf h0]
          exact .single (.still rfl rfl) hst
  · rw [settle_of_ne hst, bring_of_ne hl hst]
    refine .single (.still rfl rfl) (hφ.stay rfl (fun _ hn => ⟨hn.running, hn.woken⟩) ?_)
    -- The call that is taken off the list is not the probe.
    refine fun id' hid => (List.mem_eraseP_of_neg fun heq => ?_).2 hid
    rw [← beq_iff_eq.1 heq, hu.numbered.lookup hid] at hl
    cases hl

theorem Shows.bring_probe (hu : InUse c s) (hφ : Shows c s φ)
    (hl : s.calls.lookup id = some ⟨true⟩) (hb : (s.bring c id succeeded).epochs < 2 ^ 64) :
    LeadsTo c φ (s.loggedReturn? c id succeeded).toList (s.bring c id succeeded) := by
  have hst := hu.sound.halfOpen_of_lookup hl rfl
  have hprobing := hu.sound.probing (mem_of_lookup hl) rfl
  obtain ⟨probe, rfl⟩ := Phase.eq_halfOpen (hφ.state.symm.trans hst)
  cases probe with
  | none => exact absurd (hprobing.symm.trans hφ.2) nofun
  | some id' =>
    obtain rfl := hu.sound.probe_unique hl hφ.2
    rw [loggedReturn?_of_lookup hl]
    rw [bring_of_lookup hl] at hb ⊢
    cases succeeded with
    | true =>
      rw [settle_probe_succeeded hst]
      exact .single .close rfl
    | false =>
      rw [settle_probe_failed hst] at hb ⊢
      exact .single .reopen (hu.timed.inOrder.erase_call.shows_trip rfl hb)

theorem Shows.bring (hu : InUse c s) (hφ : Shows c s φ)
    (hb : (s.bring c id succeeded).epochs < 2 ^ 64) :
    LeadsTo c φ (s.loggedReturn? c id succeeded).toList (s.bring c id succeeded) := by
  rcases hl : s.calls.lookup id with _ | ⟨_ | _⟩
  · simp only [loggedReturn?, Circuit.bring, hl]
    exact .still hφ
  · exact hφ.bring_call hu hl hb
  · exact hφ.bring_probe hu hl hb

theorem Shows.fire (hu : InUse c s) (hφ : Shows c s φ) (hw : t ∈ s.woken) :
    LeadsTo c φ [⟨s.now, .rang, (s.breaker.fire t).change.bind Change.transition?⟩]
      ({ s with woken := s.woken.erase t }.hold (s.breaker.fire t)) := by
  -- A timer of the current epoch is the one that the breaker waits for, any other does nothing.
  by_cases he : s.breaker.epoch = t.epoch
  · obtain ⟨haw, -⟩ := hu.timed.live_erase_awaited hw he
    rcases mem_awaited haw with ⟨hst, -, rfl⟩ | ⟨hst, rfl⟩
    · obtain rfl := Phase.eq_closed (hφ.state.symm.trans hst)
      rw [fire_forgive hst]
      exact .single (.still rfl rfl) hst
    · obtain ⟨since, rfl⟩ := Phase.eq_opened (hφ.state.symm.trans hst)
      rw [fire_awaitProbe hst]
      exact .single (.halfOpen (hφ.2.woken _ hw rfl)) ⟨rfl, rfl⟩
  · rw [fire_stale he]
    refine .single (.still rfl rfl) (hφ.stay rfl (fun _ hn => ⟨hn.running, ?_⟩) fun _ => id)
    exact fun t' ht' => hn.woken t' (List.mem_of_mem_erase ht')

theorem InUse.step {e : Event} (hu : InUse c s) (hb : (step c s e).epochs < 2 ^ 64) :
    InUse c (step c s e) :=
  ⟨step_sound hu.sound, step_timed hu.timed hu.sound hb, step_numbered hu.numbered⟩

theorem Shows.step (hu : InUse c s) (hφ : Shows c s φ) (e : Event)
    (hb : (step c s e).epochs < 2 ^ 64) :
    LeadsTo c φ (s.logged? c e).toList (step c s e) := by
  cases e with
  | wait ms => exact .still (hφ.wait ms)
  | call => exact hφ.call hu
  | settle id succeeded => exact hφ.bring hu hb
  | drop id => exact hφ.bring hu hb
  | wake => exact .still hφ.wake
  | fire t =>
    simp only [Circuit.step, logged?]
    split_ifs with hw
    · exact hφ.fire hu hw
    · exact .still hφ

theorem history_path (c : Config) : ∀ (es : List Event) (s : Circuit) (φ : Phase),
    InUse c s → Shows c s φ → (run c s es).epochs < 2 ^ 64 →
      LeadsTo c φ (history c s es) (run c s es)
  | [], _, φ, _, hφ, _ => ⟨φ, .nil, hφ⟩
  | e :: es, s, φ, hu, hφ, hb => by
    have hb' := Nat.lt_of_le_of_lt (run_epochs_le c es (Circuit.step c s e)) hb
    obtain ⟨φ', hp, hφ'⟩ := hφ.step hu e hb'
    obtain ⟨φ'', hp', hφ''⟩ := history_path c es (Circuit.step c s e) φ' (hu.step hb') hφ' hb
    exact ⟨φ'', hp.append hp', hφ''⟩

end Steps

theorem inUse_new (c : Config) : InUse c {} := ⟨sound_new c, timed_new, numbered_new⟩

/-- From an opening to the next closing a breaker leaves what is behind it alone, but for one probe
after each closing delay. The changes in the history are those that observers hear, and the
breaker's own: its state is what the last of them left. -/
theorem run_quiet (c : Config) (es : List Event) (hb : (run c {} es).epochs < 2 ^ 64) :
    let h := history c {} es
    (run c {} es).breaker.state = stateAfter h .closed
      ∧ (run c {} es).heard = (h.filterMap Entry.notice?).reverse
      ∧ Quiet c.closingDelay.toNat h := by
  intro h
  obtain ⟨φ, hp, hφ⟩ := history_path c es {} .closed (inUse_new c) rfl hb
  refine ⟨hφ.state.trans hp.state, ?_, hp.quiet (history_sorted c es {})⟩
  rw [history_heard]
  exact List.append_nil _

/-- A breaker opens, its timer is late, and its probe is given up; the next probe waits for the
delay once more. -/
def lostProbe : List Event :=
  [.call, .settle 0 false, .call, .wait 1500, .wake, .fire ⟨1, .awaitProbe⟩, .call, .call, .drop 1,
    .wait 1000, .wake, .fire ⟨2, .awaitProbe⟩, .call]

/-- The two probes after an opening are the delay apart. -/
theorem run_quiet_lostProbe :
    (run ⟨1, 100, 1000⟩ {} lostProbe).epochs < 2 ^ 64
      ∧ (run ⟨1, 100, 1000⟩ {} lostProbe).breaker.state = .halfOpen
      ∧ ((history ⟨1, 100, 1000⟩ {} lostProbe).drop 2).filter Entry.starts
        = [⟨1500, .started 1, none⟩, ⟨2500, .started 2, none⟩]
      ∧ (((history ⟨1, 100, 1000⟩ {} lostProbe).drop 2).filter Entry.starts).Pairwise
        fun y z => y.time + 1000 ≤ z.time := by
  have hb : (run ⟨1, 100, 1000⟩ {} lostProbe).epochs < 2 ^ 64 := by decide
  obtain ⟨hst, -, hquiet⟩ := run_quiet ⟨1, 100, 1000⟩ lostProbe hb
  refine ⟨hb, hst.trans (by decide), by decide, ?_⟩
  refine hquiet.spaced [⟨0, .started 0, none⟩] ⟨0, .returned 0, some .opened⟩ _ [] ?_ rfl ?_
  · decide
  · decide

end AuctionGate.Circuit
