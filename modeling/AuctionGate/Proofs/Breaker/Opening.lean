import AuctionGate.Proofs.Breaker.Staleness

/-!
# When a breaker opens

A closed breaker records the results of its calls. It counts failures in a row, and the window
that starts with the first of them forgives them all when it runs out. So a breaker that opens in
time has recorded as many failures as its threshold within one window. The converse takes more:
the window of an earlier run may run out in the middle of a burst and take failures of the burst
with it, though only once, and less than the threshold of them. Twice the threshold less two
failures within a window are enough, however late timers are (`run_opening`).
-/

namespace AuctionGate.Circuit

open Breaker

/-- A result that a closed breaker takes from one of its calls. -/
structure Recording where
  time : Nat
  succeeded : Bool
  deriving DecidableEq, Repr

/-- What the breaker records of an event, if it is closed and a call other than a probe comes
back. -/
def recording? (s : Circuit) (e : Event) : Option Recording :=
  e.result?.bind fun (id, succeeded) =>
    if s.breaker.state = .closed ∧ s.calls.lookup id = some ⟨false⟩ then some ⟨s.now, succeeded⟩
    else none

/-- What the breaker records in a run, in the order of time. -/
def recordings (c : Config) : Circuit → List Event → List Recording
  | _, [] => []
  | s, e :: es => (s.recording? e).toList ++ recordings c (step c s e) es

/-- A timer is due that has not reached the breaker. -/
def Overdue (s : Circuit) : Prop := s.woken ≠ [] ∨ ∃ x ∈ s.running, x.1 ≤ s.now

instance (s : Circuit) : Decidable s.Overdue :=
  inferInstanceAs (Decidable (s.woken ≠ [] ∨ ∃ x ∈ s.running, x.1 ≤ s.now))

/-- In a run the timer that is installed does not reach the breaker before it is due. -/
def NeverEarly (c : Config) (es : List Event) : Prop :=
  ∀ before t after due, es = before ++ .fire t :: after → t ∈ (run c {} before).woken →
    installed c before = some (due, t) → due ≤ (run c {} before).now

/-- As many failures as always open a breaker when they come within a window. -/
def burst (c : Config) : Nat := max 1 (2 * c.threshold - 2)

/-- What an event does to a closed breaker, by the timer that is installed before it. -/
inductive ClosedStep (c : Config) (s : Circuit) (u : Option (Nat × Timer)) (e : Event) : Prop
  | still (recorded : s.recording? e = none) (breaker : (step c s e).breaker = s.breaker)
      (installs : s.install c u e = u)
  | forgiven (event : e = .fire ⟨s.breaker.epoch, .forgive⟩)
      (woken : ⟨s.breaker.epoch, .forgive⟩ ∈ s.woken)
      (breaker : (step c s e).breaker = { s.breaker with failures := 0 })
      (installs : s.install c u e = u)
  | success (recorded : s.recording? e = some ⟨s.now, true⟩)
      (state : (step c s e).breaker.state = .closed)
      (failures : (step c s e).breaker.failures = 0)
  | opens (recorded : s.recording? e = some ⟨s.now, false⟩)
      (failures : s.breaker.failures.toNat + 1 = c.threshold)
      (state : (step c s e).breaker.state = .opened)
      (heard : (step c s e).heard = (s.now, .opened) :: s.heard)
  | first (recorded : s.recording? e = some ⟨s.now, false⟩) (zero : s.breaker.failures = 0)
      (state : (step c s e).breaker.state = .closed)
      (failures : (step c s e).breaker.failures = 1)
      (installs : s.install c u e
        = some (s.now + c.openingWindow.toNat, ⟨(step c s e).breaker.epoch, .forgive⟩))
  | further (recorded : s.recording? e = some ⟨s.now, false⟩) (counted : s.breaker.failures ≠ 0)
      (state : (step c s e).breaker.state = .closed)
      (failures : (step c s e).breaker.failures.toNat = s.breaker.failures.toNat + 1)
      (epoch : (step c s e).breaker.epoch = s.breaker.epoch)
      (installs : s.install c u e = u)

/-- The failures of a closed breaker are the last results it recorded, and they are forgiven a
window after some time that is not past the first of them. -/
def Counts (c : Config) (s : Circuit) (u : Option (Nat × Timer)) (recs : List Recording) : Prop :=
  ∃ older latest, recs = older ++ latest ∧ latest.length = s.breaker.failures.toNat
    ∧ (∀ x ∈ latest, x.succeeded = false)
    ∧ (s.breaker.failures ≠ 0 → ∃ since ≤ s.now,
      u = some (since + c.openingWindow.toNat, ⟨s.breaker.epoch, .forgive⟩)
        ∧ ∀ x ∈ latest, since ≤ x.time)

/-- How a closed breaker stands after failures of a burst. -/
inductive Nears (c : Config) (s : Circuit) (u : Option (Nat × Timer)) (recs : List Recording) :
    Prop
  /-- All of them are counted, besides earlier ones. -/
  | counting (failures : recs.length < s.breaker.failures.toNat)
  /-- The others were forgiven with earlier ones, and what is counted is forgiven no sooner than a
  window after one of them. -/
  | recounting (failures : recs.length ≤ s.breaker.failures.toNat + (c.threshold - 2))
      (installs : s.breaker.failures ≠ 0 → ∃ x ∈ recs,
        u = some (x.time + c.openingWindow.toNat, ⟨s.breaker.epoch, .forgive⟩))
  /-- The window is over. -/
  | past (short : recs.length < burst c)
      (late : ∃ x ∈ recs, x.time + c.openingWindow.toNat ≤ s.now)

variable {c : Config} {s s' : Circuit} {e : Event} {u : Option (Nat × Timer)} {id : Nat}
  {succeeded : Bool} {es before during : List Event}

section Recordings

theorem recordings_append (c : Config) : ∀ (es es' : List Event) (s : Circuit),
    recordings c s (es ++ es') = recordings c s es ++ recordings c (run c s es) es'
  | [], _, _ => rfl
  | e :: es, es', s => by
    rw [List.cons_append, recordings, recordings, recordings_append c es es' (step c s e),
      List.append_assoc]
    rfl

theorem recordings_snoc (c : Config) (s : Circuit) (es : List Event) (e : Event) :
    recordings c s (es ++ [e]) = recordings c s es ++ ((run c s es).recording? e).toList := by
  rw [recordings_append, recordings, recordings, List.append_nil]

theorem recording?_of_lookup (he : e.result? = some (id, succeeded))
    (hst : s.breaker.state = .closed) (hl : s.calls.lookup id = some ⟨false⟩) :
    s.recording? e = some ⟨s.now, succeeded⟩ := by
  rw [recording?, he, Option.bind_some]
  exact if_pos ⟨hst, hl⟩

end Recordings

section Closed

theorem ClosedStep.bring (hs : Sound c s) (hst : s.breaker.state = .closed)
    (he : e.result? = some (id, succeeded)) (ht : s.taken? c e
      = (s.calls.lookup id).map (s.breaker.settle c · succeeded)) : ClosedStep c s u e := by
  have hstep := step_result (c := c) (s := s) he
  rcases hl : s.calls.lookup id with _ | ⟨_ | _⟩
  · -- No such call is out.
    rw [hl, Option.map_none] at ht
    refine .still ?_ ?_ ?_
    · simp [recording?, he, hl]
    · simp [hstep, Circuit.bring, hl]
    · rw [install, ht]
      rfl
  · have hrec := recording?_of_lookup he hst hl
    rw [bring_of_lookup hl] at hstep
    rw [hl, Option.map_some] at ht
    cases succeeded with
    | true =>
      rw [settle_succeeded hst] at hstep
      exact .success hrec (hstep ▸ hst) (hstep ▸ rfl)
    | false =>
      rw [settle_failed hst] at hstep ht
      by_cases hf : s.breaker.failures.toNat + 1 = c.threshold
      · rw [fail_last hs.breaker hst hf] at hstep
        exact .opens hrec hf (hstep ▸ rfl) (hstep ▸ rfl)
      · by_cases h0 : s.breaker.failures = 0
        · rw [fail_first hs.breaker hst hf h0] at hstep ht
          refine .first hrec h0 (hstep ▸ hst) (hstep ▸ rfl) ?_
          rw [install, ht, hstep]
          rfl
        · rw [fail_next hs.breaker hst hf h0] at hstep ht
          refine .further hrec h0 (hstep ▸ hst) ?_ (hstep ▸ rfl) ?_
          · rw [hstep]
            exact hs.breaker.failures_succ hst
          · rw [install, ht]
            rfl
  · -- A probe finds the breaker half open.
    rw [hs.halfOpen_of_lookup hl rfl] at hst
    cases hst

theorem closedStep (hs : Sound c s) (hst : s.breaker.state = .closed) (u : Option (Nat × Timer))
    (e : Event) : ClosedStep c s u e := by
  cases e with
  | wait ms => exact .still rfl rfl rfl
  | call =>
    refine .still rfl ?_ rfl
    simp only [step, allow_closed hst]
  | settle id succeeded => exact .bring hs hst rfl rfl
  | drop id => exact .bring hs hst rfl rfl
  | wake =>
    refine .still rfl ?_ rfl
    simp only [step]
    split
    · rfl
    · split_ifs <;> rfl
  | fire t =>
    by_cases hw : t ∈ s.woken
    · have hinst : s.install c u (.fire t) = u := by
        rw [install, taken?, if_pos hw]
        exact installedBy_still (fire_stops _ t) ..
      have hstep : (step c s (.fire t)).breaker = (s.breaker.fire t).breaker := by
        rw [step, if_pos hw]
        rfl
      by_cases he : s.breaker.epoch = t.epoch
      · rcases t with ⟨epoch, _ | _⟩ <;> obtain rfl := he
        · rw [fire_forgive hst] at hstep
          exact .forgiven rfl hw hstep hinst
        · refine .still rfl (hstep.trans ?_) hinst
          simp [Breaker.fire, hst]
      · rw [fire_stale he] at hstep
        exact .still rfl hstep hinst
    · refine .still rfl ?_ ?_
      · rw [step, if_neg hw]
      · rw [install, taken?, if_neg hw]
        rfl

end Closed

section Soundness

theorem fire_closed_of {b : Breaker} {t : Timer} (h : (b.fire t).breaker.state = .closed) :
    b.state = .closed := by
  simp only [Breaker.fire] at h
  split_ifs at h
  · exact h
  · split at h
    · exact h
    · cases h
    · exact h

/-- A breaker that closes has no failures. -/
theorem bring_closes (hs : Sound c s) (hne : s.breaker.state ≠ .closed)
    (hst : (s.bring c id succeeded).breaker.state = .closed) :
    (s.bring c id succeeded).breaker.failures = 0 := by
  rcases hl : s.calls.lookup id with _ | ⟨_ | _⟩
  · rw [Circuit.bring, hl] at hst
    exact absurd hst hne
  · rw [bring_of_ne hl hne] at hst
    exact absurd hst hne
  · have hhalf := hs.halfOpen_of_lookup hl rfl
    rw [bring_of_lookup hl] at hst ⊢
    cases succeeded with
    | true =>
      rw [settle_probe_succeeded hhalf]
      rfl
    | false =>
      rw [settle_probe_failed hhalf] at hst
      cases hst

theorem step_closes (hs : Sound c s) (hne : s.breaker.state ≠ .closed)
    (hst : (step c s e).breaker.state = .closed) : (step c s e).breaker.failures = 0 := by
  cases e with
  | wait ms => exact absurd hst hne
  | call =>
    simp only [step] at hst
    split at hst
    · exact absurd hst hne
    · rename_i p b hall
      rcases allow_cases hall with ⟨h, -⟩ | ⟨h, -, -, rfl⟩
      · exact absurd h hne
      · exact absurd hst hne
  | settle id succeeded => exact bring_closes hs hne hst
  | drop id => exact bring_closes hs hne hst
  | wake =>
    simp only [step] at hst
    split at hst
    · exact absurd hst hne
    · split_ifs at hst <;> exact absurd hst hne
  | fire t =>
    simp only [step] at hst
    split_ifs at hst
    · exact absurd (fire_closed_of hst) hne
    · exact absurd hst hne

theorem counts_zero {recs : List Recording} (h : s.breaker.failures = 0) : Counts c s u recs :=
  ⟨recs, [], (List.append_nil _).symm, by simp [h], nofun, fun h0 => absurd h h0⟩

theorem Counts.step {recs : List Recording} (hs : Sound c s)
    (h : s.breaker.state = .closed → Counts c s u recs)
    (hst : (step c s e).breaker.state = .closed) :
    Counts c (step c s e) (s.install c u e) (recs ++ (s.recording? e).toList) := by
  by_cases hcl : s.breaker.state = .closed
  · obtain ⟨older, latest, hrecs, hlen, hfail, hsince⟩ := h hcl
    have hnow := step_now_le c s e
    cases closedStep hs hcl u e with
    | still hr hb hu =>
      rw [hr, hu, Option.toList_none, List.append_nil]
      refine ⟨older, latest, hrecs, hb ▸ hlen, hfail, fun h0 => ?_⟩
      obtain ⟨since, hle, hinst, hafter⟩ := hsince (hb ▸ h0)
      exact ⟨since, Nat.le_trans hle hnow, hb ▸ hinst, hafter⟩
    | forgiven he hw hb hu => exact counts_zero (hb ▸ rfl)
    | success hr hst' h0 => exact counts_zero h0
    | opens hr hf hst' =>
      rw [hst'] at hst
      cases hst
    | first hr h0 hst' hone hu =>
      -- A run begins with this failure.
      rw [hr, hu]
      refine ⟨recs, [⟨s.now, false⟩], rfl, by simp [hone], by simp, fun _ => ?_⟩
      exact ⟨s.now, hnow, rfl, by simp⟩
    | further hr h0 hst' hf he hu =>
      obtain ⟨since, hle, hinst, hafter⟩ := hsince h0
      rw [hr, hu, hrecs]
      refine ⟨older, latest ++ [⟨s.now, false⟩], List.append_assoc .., ?_, ?_, fun _ => ?_⟩
      · rw [List.length_append, hlen, hf]
        rfl
      · simp only [List.mem_append, List.mem_singleton]
        rintro x (hx | rfl)
        · exact hfail x hx
        · rfl
      · refine ⟨since, Nat.le_trans hle hnow, he ▸ hinst, ?_⟩
        simp only [List.mem_append, List.mem_singleton]
        rintro x (hx | rfl)
        · exact hafter x hx
        · exact hle
  · exact counts_zero (step_closes hs hcl hst)

theorem counts_run (c : Config) (es : List Event) (hst : (run c {} es).breaker.state = .closed) :
    Counts c (run c {} es) (installed c es) (recordings c {} es) := by
  induction es using List.reverseRecOn with
  | nil => exact counts_zero rfl
  | append_singleton es e ih =>
    rw [run_snoc] at hst ⊢
    rw [installed_snoc, recordings_snoc]
    exact Counts.step (run_sound c es {} (sound_new c)) ih hst

/-- While no timer is overdue, what a closed breaker has counted is not forgiven yet. -/
theorem Installs.ahead (h : s.Installs u) (hst : s.breaker.state = .closed)
    (h0 : s.breaker.failures ≠ 0) (hd : ¬ s.Overdue) {due : Nat} {t : Timer}
    (hu : u = some (due, t)) : s.now < due := by
  have hwoken : s.woken = [] := not_not.1 fun hne => hd (.inl hne)
  rcases h.due _ hu with hr | ⟨hr, -⟩
  · exact Nat.lt_of_not_le fun hle => hd (.inr ⟨_, hr, hle⟩)
  · have hmem := h.onWay ⟨s.breaker.epoch, .forgive⟩ (by rw [awaited_forgive hst h0]; simp)
    rw [pending, hr, hwoken] at hmem
    cases hmem

/-- A breaker that opens with no timer overdue has recorded as many failures as its threshold, all
of them within a window, and nothing else since the first of them. -/
theorem opens_sound (hW : 0 < c.openingWindow.toNat)
    (hst : (run c {} es).breaker.state = .closed)
    (hopen : (step c (run c {} es) e).breaker.state = .opened) (hd : ¬ (run c {} es).Overdue) :
    ∃ older latest, recordings c {} (es ++ [e]) = older ++ latest ∧ latest.length = c.threshold
      ∧ ∀ x ∈ latest, x.succeeded = false
        ∧ (run c {} es).now < x.time + c.openingWindow.toNat := by
  have hs : Sound c (run c {} es) := run_sound c es {} (sound_new c)
  have hne : (step c (run c {} es) e).breaker.state ≠ .closed := by
    rw [hopen]
    decide
  obtain ⟨older, latest, hrecs, hlen, hfail, hsince⟩ := counts_run c es hst
  rw [recordings_snoc]
  cases closedStep hs hst (installed c es) e with
  | opens hr hf =>
    rw [hr, hrecs]
    refine ⟨older, latest ++ [⟨(run c {} es).now, false⟩], List.append_assoc .., ?_, ?_⟩
    · rw [List.length_append, hlen]
      exact hf
    · simp only [List.mem_append, List.mem_singleton]
      rintro x (hx | rfl)
      · have h0 : (run c {} es).breaker.failures ≠ 0 := by
          intro h0
          rw [h0] at hlen
          rw [List.length_eq_zero_iff.1 hlen] at hx
          cases hx
        obtain ⟨since, -, hinst, hafter⟩ := hsince h0
        have hahead := (installs_run c es).ahead hst h0 hd hinst
        have := hafter x hx
        exact ⟨hfail x hx, by omega⟩
      · exact ⟨rfl, Nat.lt_add_of_pos_right hW⟩
  | still hr hb => exact absurd (hb ▸ hst) hne
  | forgiven he hw hb => exact absurd ((congrArg Breaker.state hb).trans hst) hne
  | success hr hst' => exact absurd hst' hne
  | first hr h0 hst' => exact absurd hst' hne
  | further hr h0 hst' => exact absurd hst' hne

end Soundness

section Detection

variable {recs : List Recording}

theorem openings_le_step (c : Config) (s : Circuit) (e : Event) :
    s.openings ≤ (step c s e).openings := by
  rw [openings, openings, step_heard, List.countP_append]
  exact Nat.le_add_left ..

theorem openings_le_run (c : Config) : ∀ (es : List Event) (s : Circuit),
    s.openings ≤ (run c s es).openings
  | [], _ => Nat.le_refl _
  | e :: es, s => Nat.le_trans (openings_le_step c s e) (openings_le_run c es (step c s e))

theorem Nears.length_lt (hs : Sound c s) (hst : s.breaker.state = .closed)
    (h : Nears c s u recs) : recs.length < burst c := by
  have hlt := hs.breaker.closed hst
  unfold burst
  cases h with
  | counting hf => omega
  | recounting hf => omega
  | past hshort => exact hshort

/-- A window that ends with its timer takes less failures with it than the threshold. -/
theorem Nears.forgive (hs : Sound c s) (hst : s.breaker.state = .closed) (h : Nears c s u recs)
    (hb : s'.breaker = { s.breaker with failures := 0 }) (hn : s'.now = s.now)
    (hearly : ∀ due, u = some (due, ⟨s.breaker.epoch, .forgive⟩) → due ≤ s.now) :
    Nears c s' u recs := by
  have hshort := h.length_lt hs hst
  have hlt := hs.breaker.closed hst
  have hzero : s'.breaker.failures = 0 := hb ▸ rfl
  cases h with
  | counting hf =>
    refine .recounting ?_ fun h0 => absurd hzero h0
    rw [hzero, UInt32.toNat_zero]
    omega
  | recounting hf hinst =>
    by_cases h0 : s.breaker.failures = 0
    · refine .recounting ?_ fun h0 => absurd hzero h0
      rw [hzero, ← h0]
      exact hf
    · obtain ⟨x, hx, hu⟩ := hinst h0
      exact .past hshort ⟨x, hx, hn ▸ hearly _ hu⟩
  | past _ hlate => exact .past hshort (hn ▸ hlate)

/-- A failure after the first of a run is one more. -/
theorem Nears.further (h : Nears c s u recs) {y : Recording}
    (hspan : ∀ x ∈ recs, s.now < x.time + c.openingWindow.toNat) (h0 : s.breaker.failures ≠ 0)
    (hf : s'.breaker.failures.toNat = s.breaker.failures.toNat + 1)
    (he : s'.breaker.epoch = s.breaker.epoch) : Nears c s' u (recs ++ [y]) := by
  cases h with
  | counting hlen =>
    refine .counting ?_
    rw [List.length_append, hf]
    exact Nat.succ_lt_succ hlen
  | recounting hlen hinst =>
    refine .recounting ?_ fun _ => ?_
    · rw [List.length_append, hf, List.length_singleton]
      omega
    · obtain ⟨x, hx, hu⟩ := hinst h0
      exact ⟨x, List.mem_append_left _ hx, he ▸ hu⟩
  | past _ hlate =>
    obtain ⟨x, hx, hle⟩ := hlate
    exact absurd (hspan x hx) (Nat.not_lt.2 hle)

/-- The first failure of a run starts a window of its own. -/
theorem Nears.first (h : Nears c s u recs)
    (hspan : ∀ x ∈ recs, s.now < x.time + c.openingWindow.toNat) (h0 : s.breaker.failures = 0)
    (hf : s'.breaker.failures = 1) : Nears c s'
      (some (s.now + c.openingWindow.toNat, ⟨s'.breaker.epoch, .forgive⟩))
      (recs ++ [⟨s.now, false⟩]) := by
  cases h with
  | counting hlen =>
    rw [h0] at hlen
    exact absurd hlen (Nat.not_lt_zero _)
  | recounting hlen =>
    refine .recounting ?_ fun _ => ⟨_, List.mem_append_right _ List.mem_cons_self, rfl⟩
    rw [h0, UInt32.toNat_zero] at hlen
    rw [List.length_append, hf, UInt32.toNat_one, List.length_singleton]
    omega
  | past _ hlate =>
    obtain ⟨x, hx, hle⟩ := hlate
    exact absurd (hspan x hx) (Nat.not_lt.2 hle)

theorem Nears.step (hs : Sound c s) (hst : s.breaker.state = .closed) (h : Nears c s u recs)
    (hearly : ∀ t due, e = .fire t → t ∈ s.woken → u = some (due, t) → due ≤ s.now)
    (hfail : ∀ y, s.recording? e = some y → y.succeeded = false)
    (hspan : ∀ y, s.recording? e = some y → ∀ x ∈ recs, y.time < x.time + c.openingWindow.toNat) :
    s.openings < (step c s e).openings ∨ (step c s e).breaker.state = .closed
      ∧ Nears c (step c s e) (s.install c u e) (recs ++ (s.recording? e).toList) := by
  have hnow := step_now_le c s e
  cases closedStep hs hst u e with
  | still hr hb hu =>
    rw [hr, hu, Option.toList_none, List.append_nil]
    refine .inr ⟨hb ▸ hst, ?_⟩
    cases h with
    | counting hf => exact .counting (hb ▸ hf)
    | recounting hf hinst => exact .recounting (hb ▸ hf) (hb ▸ hinst)
    | past hshort hlate =>
      obtain ⟨x, hx, hle⟩ := hlate
      exact .past hshort ⟨x, hx, Nat.le_trans hle hnow⟩
  | forgiven he hw hb hu =>
    subst he
    rw [hu, show s.recording? (.fire _) = none from rfl, Option.toList_none, List.append_nil]
    refine .inr ⟨hb ▸ hst, h.forgive hs hst hb ?_ fun due hdue => hearly _ due rfl hw hdue⟩
    rw [Circuit.step, if_pos hw]
    rfl
  | success hr =>
    have hfailed : true = false := hfail _ hr
    cases hfailed
  | opens hr hf hst' hheard =>
    left
    rw [openings, openings, hheard, List.countP_cons_of_pos rfl]
    exact Nat.lt_succ_self _
  | first hr h0 hst' hone hu =>
    rw [hr, hu]
    exact .inr ⟨hst', h.first (hspan _ hr) h0 hone⟩
  | further hr h0 hst' hf he hu =>
    rw [hr, hu]
    exact .inr ⟨hst', h.further (hspan _ hr) h0 hf he⟩

theorem NeverEarly.left {es' : List Event} (h : NeverEarly c (es ++ es')) : NeverEarly c es := by
  intro before t after due hes
  exact h before t (after ++ es') due (by rw [hes, List.append_assoc, List.cons_append])

theorem nears_run (hst : (run c {} before).breaker.state = .closed)
    (hearly : NeverEarly c (before ++ during))
    (hfail : ∀ x ∈ recordings c (run c {} before) during, x.succeeded = false)
    (hspan : ∀ x ∈ recordings c (run c {} before) during,
      ∀ y ∈ recordings c (run c {} before) during, y.time < x.time + c.openingWindow.toNat) :
    (run c {} before).openings < (run c {} (before ++ during)).openings
      ∨ (run c {} (before ++ during)).breaker.state = .closed
        ∧ Nears c (run c {} (before ++ during)) (installed c (before ++ during))
          (recordings c (run c {} before) during) := by
  induction during using List.reverseRecOn with
  | nil =>
    rw [List.append_nil]
    refine .inr ⟨hst, ?_⟩
    by_cases h0 : (run c {} before).breaker.failures = 0
    · exact .recounting (Nat.zero_le _) fun hne => absurd h0 hne
    · exact .counting (Nat.pos_of_ne_zero fun h => h0 (UInt32.toNat_inj.1 h))
  | append_singleton during e ih =>
    rw [← List.append_assoc] at hearly ⊢
    rw [recordings_snoc] at hfail hspan ⊢
    rw [run_snoc, installed_snoc]
    have hrun : run c (run c {} before) during = run c {} (before ++ during) :=
      (List.foldl_append ..).symm
    rw [hrun] at hfail hspan ⊢
    have hs : Sound c (run c {} (before ++ during)) := run_sound c _ {} (sound_new c)
    rcases ih hearly.left (fun x hx => hfail x (List.mem_append_left _ hx))
      (fun x hx y hy => hspan x (List.mem_append_left _ hx) y (List.mem_append_left _ hy)) with
      hopen | ⟨hcl, hnears⟩
    · exact .inl (Nat.lt_of_lt_of_le hopen (openings_le_step c _ e))
    · have hlast (y : Recording) (hy : (run c {} (before ++ during)).recording? e = some y) :
          y ∈ recordings c (run c {} before) during
            ++ ((run c {} (before ++ during)).recording? e).toList :=
        List.mem_append_right _ (Option.mem_toList.2 hy)
      rcases hnears.step hs hcl
        (fun t due he => hearly (before ++ during) t [] due (congrArg (before ++ during ++ [·]) he))
        (fun y hy => hfail y (hlast y hy))
        (fun y hy x hx => hspan x (List.mem_append_left _ hx) y (hlast y hy)) with hopen | hnears'
      · left
        exact Nat.lt_of_le_of_lt (hrun ▸ openings_le_run c during (run c {} before)) hopen
      · exact .inr hnears'

/-- A closed breaker that records a burst of failures within a window has opened by the last. -/
theorem opens_by_last (hst : (run c {} before).breaker.state = .closed)
    (hearly : NeverEarly c (before ++ during))
    (hfail : ∀ x ∈ recordings c (run c {} before) during, x.succeeded = false)
    (hspan : ∀ x ∈ recordings c (run c {} before) during,
      ∀ y ∈ recordings c (run c {} before) during, y.time < x.time + c.openingWindow.toNat)
    (hburst : burst c ≤ (recordings c (run c {} before) during).length) :
    (run c {} before).openings < (run c {} (before ++ during)).openings := by
  rcases nears_run hst hearly hfail hspan with hopen | ⟨hcl, hnears⟩
  · exact hopen
  · have hlt := hnears.length_lt (run_sound c _ {} (sound_new c)) hcl
    exact absurd hburst (Nat.not_le.2 hlt)

/-- As long as epochs do not repeat, the timer that is installed does not run out twice. -/
theorem neverEarly_of_epochs (hb : (run c {} es).epochs < 2 ^ 64) : NeverEarly c es := by
  rintro before t after due rfl hw hinst
  have hb' : (run c {} before).epochs < 2 ^ 64 := by
    rw [run, List.foldl_append] at hb
    exact Nat.lt_of_le_of_lt (run_epochs_le c (.fire t :: after) (run c {} before)) hb
  have ht : (run c {} before).Timed := run_timed c before {} timed_new (sound_new c) hb'
  have hin := installs_run c before
  rcases hin.due _ hinst with hr | ⟨-, hdue⟩
  · -- It runs, so it cannot be another one that has run out before.
    have he : t.epoch = (run c {} before).breaker.epoch := hin.epoch _ hinst
    have hmem : t ∈ (run c {} before).woken.filter (·.epoch = (run c {} before).breaker.epoch) :=
      List.mem_filter.2 ⟨hw, decide_eq_true he⟩
    have hpos := List.length_pos_of_mem hmem
    have hle := ht.live_length_le
    simp only [live, pending, hr, Option.map_some, Option.toList_some, List.singleton_append,
      List.filter_cons, he, decide_true, if_true, List.length_cons] at hle
    omega
  · exact hdue

end Detection

/-- A breaker with a window that is not empty opens, while no timer is overdue, only on as many
failures as its threshold, recorded in a row within the window. And a closed one opens on `burst`
of them, wherever the window of an earlier run ends and however late timers are. They are never
early as long as epochs do not repeat (`neverEarly_of_epochs`). -/
theorem run_opening (hW : 0 < c.openingWindow.toNat) :
    (∀ es e, (run c {} es).breaker.state = .closed →
      (step c (run c {} es) e).breaker.state = .opened → ¬ (run c {} es).Overdue →
        ∃ older latest, recordings c {} (es ++ [e]) = older ++ latest
          ∧ latest.length = c.threshold
          ∧ ∀ x ∈ latest, x.succeeded = false
            ∧ (run c {} es).now < x.time + c.openingWindow.toNat)
      ∧ ∀ before during, (run c {} before).breaker.state = .closed →
        NeverEarly c (before ++ during) →
          let recs := recordings c (run c {} before) during
          (∀ x ∈ recs, x.succeeded = false) →
          (∀ x ∈ recs, ∀ y ∈ recs, y.time < x.time + c.openingWindow.toNat) →
          burst c ≤ recs.length →
            (run c {} before).openings < (run c {} (before ++ during)).openings :=
  ⟨fun _ _ => opens_sound hW, fun _ _ => opens_by_last⟩

/-- A failure, and four calls that are still out when its window is almost over. -/
def earlierFailure : List Event :=
  [.call, .call, .call, .call, .call, .settle 0 false, .wait 90]

/-- Four of the calls fail within a few milliseconds, and the window of the earlier failure ends
between the first of them and the others. -/
def splitBurst : List Event :=
  [.settle 1 false, .wait 10, .wake, .fire ⟨1, .forgive⟩, .settle 2 false, .settle 3 false,
    .settle 4 false]

/-- With a threshold of three the first of the four failures is forgiven, and the last one opens the
breaker, on the three that are left. -/
theorem run_opening_splitBurst :
    0 < (Config.mk 3 100 1000).openingWindow.toNat
      ∧ (∃ older latest, recordings ⟨3, 100, 1000⟩ {} (earlierFailure ++ splitBurst)
          = older ++ latest ∧ latest.length = 3
          ∧ ∀ x ∈ latest, x.succeeded = false ∧ 100 < x.time + 100)
      ∧ recordings ⟨3, 100, 1000⟩ (run ⟨3, 100, 1000⟩ {} earlierFailure) splitBurst
        = [⟨90, false⟩, ⟨100, false⟩, ⟨100, false⟩, ⟨100, false⟩]
      ∧ (run ⟨3, 100, 1000⟩ {} earlierFailure).openings
        < (run ⟨3, 100, 1000⟩ {} (earlierFailure ++ splitBurst)).openings := by
  have hW : 0 < (Config.mk 3 100 1000).openingWindow.toNat := by decide
  have hb : (run ⟨3, 100, 1000⟩ {} (earlierFailure ++ splitBurst)).epochs < 2 ^ 64 := by decide
  obtain ⟨hsound, hdetect⟩ := run_opening hW
  refine ⟨hW, ?_, by decide, hdetect _ _ (by decide) (neverEarly_of_epochs hb) (by decide)
    (by decide) (by decide)⟩
  exact hsound (earlierFailure ++ splitBurst.dropLast) (.settle 4 false) (by decide) (by decide)
    (by decide)

end AuctionGate.Circuit
