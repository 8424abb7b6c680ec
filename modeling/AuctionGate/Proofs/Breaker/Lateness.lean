import AuctionGate.Proofs.Breaker.Circuit

/-!
# Late results

A call that was let through before the breaker opened may come back long after. Whether its result
counts is decided by the state it comes back to and by nothing else (`late_settlement`): an open
or half open breaker is left as it was, a breaker that has closed again takes the result for one
of its own calls. So a slow call can add to the failures of a later closed period, or wipe them
out (`late_failure_counts`, `late_success_forgives`).
-/

namespace AuctionGate.Circuit

open Breaker

/-- What can be seen of a circuit: the state, the failures, the timers of the current epoch, and
what observers have heard. -/
structure Face where
  state : State
  failures : UInt32
  running : Option (Nat × Timer)
  woken : List Timer
  heard : List (Nat × Transition)
  deriving DecidableEq

def face (s : Circuit) : Face where
  state := s.breaker.state
  failures := s.breaker.failures
  running := s.running.filter (·.2.epoch = s.breaker.epoch)
  woken := s.woken.filter (·.epoch = s.breaker.epoch)
  heard := s.heard

def openings (s : Circuit) : Nat := s.heard.countP (·.2 = .opened)

/-- The call that an event brings back, and whether it succeeded. -/
def Event.result? : Event → Option (Nat × Bool)
  | .settle id succeeded => some (id, succeeded)
  | .drop id => some (id, false)
  | _ => none

/-- A call other than a probe was out before `after`, in which the breaker opened, and still is. -/
structure Late (c : Config) (before after : List Event) (id : Nat) : Prop where
  out : (id, ⟨false⟩) ∈ (run c {} before).calls
  opened : (run c {} before).openings < (run c {} (before ++ after)).openings
  still : (id, ⟨false⟩) ∈ (run c {} (before ++ after)).calls

variable {c : Config} {s : Circuit} {e : Event} {p : Permit} {id : Nat} {succeeded : Bool}
  {before after : List Event}

theorem step_result (he : e.result? = some (id, succeeded)) :
    step c s e = s.bring c id succeeded := by
  cases e with
  | settle id' succeeded' =>
    simp only [Event.result?, Option.some.injEq, Prod.mk.injEq] at he
    obtain ⟨rfl, rfl⟩ := he
    rfl
  | drop id' =>
    simp only [Event.result?, Option.some.injEq, Prod.mk.injEq] at he
    obtain ⟨rfl, rfl⟩ := he
    rfl
  | _ => cases he

theorem bring_of_lookup (h : s.calls.lookup id = some p) (succeeded : Bool) :
    s.bring c id succeeded = { s with calls := s.calls.eraseP (·.1 == id) }.hold
      (s.breaker.settle c p succeeded) := by
  simp only [bring, h]

/-- A breaker that is not closed takes no notice of a call that is not its probe. -/
theorem bring_of_ne (h : s.calls.lookup id = some ⟨false⟩) (hst : s.breaker.state ≠ .closed) :
    s.bring c id succeeded = { s with calls := s.calls.eraseP (·.1 == id) } := by
  rw [bring_of_lookup h, settle_of_ne hst]
  rfl

theorem bring_succeeded (h : s.calls.lookup id = some ⟨false⟩) (hst : s.breaker.state = .closed) :
    s.bring c id true = { s with calls := s.calls.eraseP (·.1 == id) }.hold
      (cancel { s.breaker with failures := 0 } none) := by
  rw [bring_of_lookup h, settle_succeeded hst]

/-- A failure is one more for a closed breaker, and may open it. -/
theorem bring_failed (hs : Sound c s) (h : s.calls.lookup id = some ⟨false⟩)
    (hst : s.breaker.state = .closed) :
    let s' := s.bring c id false
    if s.breaker.failures.toNat + 1 = c.threshold then
      s'.breaker.state = .opened ∧ s'.heard = (s.now, .opened) :: s.heard
    else s'.breaker.state = .closed
      ∧ s'.breaker.failures.toNat = s.breaker.failures.toNat + 1 := by
  intro s'
  have hs' : s' = { s with calls := s.calls.eraseP (·.1 == id) }.hold (s.breaker.fail c) := by
    rw [← settle_failed hst]
    exact bring_of_lookup h false
  have hsucc := hs.breaker.failures_succ hst
  rw [hs']
  split_ifs with hf
  · rw [fail_last hs.breaker hst hf]
    exact ⟨rfl, rfl⟩
  · by_cases h0 : s.breaker.failures = 0
    · rw [fail_first hs.breaker hst hf h0, h0]
      exact ⟨hst, rfl⟩
    · rw [fail_next hs.breaker hst hf h0]
      exact ⟨hst, hsucc⟩

theorem face_of_quiet (h : s.live = []) :
    s.face = ⟨s.breaker.state, s.breaker.failures, none, [], s.heard⟩ := by
  rw [live, pending, List.filter_append, List.append_eq_nil_iff] at h
  rw [face, h.2]
  rcases hr : s.running with _ | ⟨due, t⟩
  · rfl
  · have hne := h.1
    rw [hr] at hne
    simp only [Option.map_some, Option.toList_some, List.filter_cons, List.filter_nil] at hne
    split_ifs at hne with hte
    simp only [Option.filter, hte, Bool.false_eq_true, if_false]

theorem Timed.live_quiet (ht : s.Timed) (hst : s.breaker.state = .closed)
    (h0 : s.breaker.failures = 0) : s.live = [] := by
  rw [ht.live, awaited_closed hst, if_pos h0]

/-- A success that finds a closed breaker without failures shows nothing. -/
theorem face_bring_quiet (ht : s.Timed) (ht' : (s.bring c id true).Timed)
    (h : s.calls.lookup id = some ⟨false⟩) (hst : s.breaker.state = .closed)
    (h0 : s.breaker.failures = 0) : (s.bring c id true).face = s.face := by
  have hs' := bring_succeeded (c := c) h hst
  have hst' : (s.bring c id true).breaker.state = .closed := by
    rw [hs']
    exact hst
  have h0' : (s.bring c id true).breaker.failures = 0 := by
    rw [hs']
    rfl
  rw [face_of_quiet (ht'.live_quiet hst' h0'), face_of_quiet (ht.live_quiet hst h0), hst', h0', hst,
    h0, hs']
  rfl

/-- A success that finds a closed breaker with failures shows, and so does any failure. -/
theorem face_bring_ne (hs : Sound c s) (h : s.calls.lookup id = some ⟨false⟩)
    (hst : s.breaker.state = .closed) (h0 : succeeded = true → s.breaker.failures ≠ 0) :
    (s.bring c id succeeded).face ≠ s.face := by
  intro hface
  have hstate : (s.bring c id succeeded).breaker.state = s.breaker.state :=
    congrArg Face.state hface
  have hfailures : (s.bring c id succeeded).breaker.failures = s.breaker.failures :=
    congrArg Face.failures hface
  cases succeeded with
  | true =>
    rw [bring_succeeded h hst] at hfailures
    exact h0 rfl hfailures.symm
  | false =>
    have hfailed := bring_failed hs h hst
    simp only [hstate, hfailures, hst] at hfailed
    split_ifs at hfailed
    · cases hfailed.1
    · omega

theorem face_bring_iff (hs : Sound c s) (ht : s.Timed) (h : s.calls.lookup id = some ⟨false⟩)
    (hb : (s.bring c id succeeded).epochs < 2 ^ 64) :
    (s.bring c id succeeded).face = s.face
      ↔ s.breaker.state ≠ .closed ∨ succeeded = true ∧ s.breaker.failures = 0 := by
  by_cases hst : s.breaker.state = .closed
  · by_cases h0 : succeeded = true ∧ s.breaker.failures = 0
    · obtain ⟨rfl, h0⟩ := h0
      exact iff_of_true (face_bring_quiet ht (ht.bring hs hb) h hst h0) (.inr ⟨rfl, h0⟩)
    · refine iff_of_false (face_bring_ne hs h hst fun hsucc h0' => h0 ⟨hsucc, h0'⟩) ?_
      exact not_or.2 ⟨not_not.2 hst, h0⟩
  · rw [bring_of_ne h hst]
    exact iff_of_true rfl (.inl hst)

theorem Late.lookup (h : Late c before after id) :
    (run c {} (before ++ after)).calls.lookup id = some ⟨false⟩ :=
  (run_numbered c _ {} numbered_new).lookup h.still

/-- A late result changes nothing that can be seen exactly if it comes back to a breaker that is
not closed, or is a success where no failure is counted. To a closed breaker it is a result like
any other. -/
theorem late_settlement (hl : Late c before after id) (he : e.result? = some (id, succeeded)) :
    let s := run c {} (before ++ after)
    let s' := step c s e
    (s'.epochs < 2 ^ 64 → (s'.face = s.face
        ↔ s.breaker.state ≠ .closed ∨ succeeded = true ∧ s.breaker.failures = 0))
      ∧ (s.breaker.state ≠ .closed → s' = { s with calls := s.calls.eraseP (·.1 == id) })
      ∧ (s.breaker.state = .closed → succeeded = true → s'.breaker.failures = 0)
      ∧ (s.breaker.state = .closed → succeeded = false →
        if s.breaker.failures.toNat + 1 = c.threshold then
          s'.breaker.state = .opened ∧ s'.heard = (s.now, .opened) :: s.heard
        else s'.breaker.state = .closed
          ∧ s'.breaker.failures.toNat = s.breaker.failures.toNat + 1) := by
  intro s s'
  have h : s.calls.lookup id = some ⟨false⟩ := hl.lookup
  have hs : Sound c s := run_sound c _ {} (sound_new c)
  have hs' : s' = s.bring c id succeeded := step_result he
  rw [hs']
  refine ⟨fun hb => ?_, bring_of_ne h, ?_, ?_⟩
  · have hb₀ : s.epochs < 2 ^ 64 := Nat.lt_of_le_of_lt (bring_epochs_le c s id succeeded) hb
    exact face_bring_iff hs (run_timed c _ {} timed_new (sound_new c) hb₀) h hb
  · rintro hst rfl
    rw [bring_succeeded h hst]
    rfl
  · rintro hst rfl
    exact bring_failed hs h hst

/-- A breaker opens on two failures and closes again on its probe. -/
def recovery : List Event :=
  [.call, .settle 1 false, .call, .settle 2 false, .wait 100, .wake, .fire ⟨2, .awaitProbe⟩, .call,
    .settle 3 true]

/-- A call that was let through first comes back after one failure of the new period, and its
success wipes that failure out. -/
theorem late_success_forgives :
    Late ⟨2, 1000, 100⟩ [.call] (recovery ++ [.call, .settle 4 false]) 0
      ∧ Event.result? (.settle 0 true) = some (0, true)
      ∧ (run ⟨2, 1000, 100⟩ {} ([.call] ++ (recovery ++ [.call, .settle 4 false]))).breaker.failures
        = 1
      ∧ (step ⟨2, 1000, 100⟩ (run ⟨2, 1000, 100⟩ {}
        ([.call] ++ (recovery ++ [.call, .settle 4 false]))) (.settle 0 true)).breaker.failures
        = 0 := by
  have hl : Late ⟨2, 1000, 100⟩ [.call] (recovery ++ [.call, .settle 4 false]) 0 :=
    ⟨by decide, by decide, by decide⟩
  exact ⟨hl, rfl, by decide, (late_settlement hl rfl).2.2.1 (by decide) rfl⟩

/-- Late results are not ignored: one that fails after the breaker has closed again is counted. -/
theorem late_failure_counts :
    ¬ ∀ (c : Config) (before after : List Event) (id : Nat) (succeeded : Bool) (e : Event),
      Late c before after id → e.result? = some (id, succeeded) →
        (step c (run c {} (before ++ after)) e).face = (run c {} (before ++ after)).face := by
  intro h
  have hface := h ⟨2, 1000, 100⟩ [.call] recovery 0 false (.settle 0 false)
    ⟨by decide, by decide, by decide⟩ rfl
  exact absurd hface (by decide)

end AuctionGate.Circuit
