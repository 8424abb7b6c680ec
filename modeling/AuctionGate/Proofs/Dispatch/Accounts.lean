import AuctionGate.Proofs.Dispatch.Visits
import Mathlib.Order.MinMax

/-!
# Every call is accounted for

A call that its breaker let through owes the breaker one record, made when the call ends or is
cancelled, and no other call owes any (`Dispatcher.record?`). Whatever is done with a dispatcher,
what is owed has been recorded or is outstanding, so nothing is recorded twice or lost
(`Registry.Accounts`). When nothing is under way nothing is outstanding.
-/

namespace AuctionGate

open Breaker

/-- A response is there after a start and by a limit. -/
def Reaction.answersBy (r : Reaction) (start limit : Nat) : Bool :=
  match r.delay, r.ending with
  | some t, .outcome (.response _) => start + t ≤ limit
  | _, _ => false

theorem Reaction.answersBy_iff {r : Reaction} {start limit : Nat} :
    r.answersBy start limit = true
      ↔ ∃ t response, r = ⟨some t, .outcome (.response response)⟩ ∧ start + t ≤ limit := by
  rcases r with ⟨_ | t, (response | f | _) | _⟩ <;> simp [answersBy]

/-- What a call that is out owes its breaker, if its dispatch ends at a time. -/
def Airborne.promised (a : Airborne) (limit : Nat) : List Record :=
  a.leave.toList.map fun l =>
    ⟨min a.finish limit, l, decide (a.finish ≤ limit) && a.ended.succeeded⟩

def Job.record? (due : Nat) : Job → Option Record
  | .timer .. => none
  | .giveBack l succeeded => some ⟨due, l, succeeded⟩

def Job.visit (due : Nat) : Job → Visit
  | .timer key t => .rang due key t
  | .giveBack l succeeded => .recorded ⟨due, l, succeeded⟩

/-- What the jobs that are entered record. -/
def promises (entries : List (Nat × Job)) : List Record :=
  entries.filterMap fun x => x.2.record? x.1

@[simp] theorem promises_append (l l' : List (Nat × Job)) :
    promises (l ++ l') = promises l ++ promises l' :=
  List.filterMap_append

theorem promises_time {entries : List (Nat × Job)} {x : Record} (h : x ∈ promises entries) :
    ∃ e ∈ entries, e.1 = x.time := by
  obtain ⟨⟨due, j⟩, he, hx⟩ := List.mem_filterMap.1 h
  cases j with
  | timer key t => cases hx
  | giveBack l succeeded =>
    obtain rfl := Option.some.inj hx
    exact ⟨_, he, rfl⟩

theorem filter_le_append_lt {α : Type} (g : α → Nat) (limit : Nat) (l : List α) :
    (l.filter (g · ≤ limit) ++ l.filter (limit < g ·)).Perm l := by
  have hlater : (fun a => decide (limit < g a)) = fun a => !decide (g a ≤ limit) := by
    funext a
    rw [← decide_not, decide_eq_decide]
    exact Nat.not_le.symm
  rw [hlater]
  exact List.filter_append_perm ..

def Flight.cancellations (f : Flight) : List Record :=
  f.cancelled.map fun l => ⟨f.finish, l, false⟩

namespace Registry

/-- A registry goes through visits. What was outstanding before, with what is owed since, has been
recorded or is outstanding after them. -/
structure Accounts (r : Registry) (before owed : List Record) (vs : List Visit) (r' : Registry)
    (after : List Record) : Prop where
  serves : r.Serves (before.map (·.leave)) vs r' (after.map (·.leave))
  balance : (owed ++ before).Perm (records vs ++ after)

variable {r r' r'' : Registry} {before before' owed owed' after after' after'' : List Record}
  {vs vs' : List Visit}

theorem Accounts.refl (r : Registry) (before : List Record) : r.Accounts before [] [] r before :=
  ⟨.done (.refl _), .refl _⟩

theorem Accounts.trans (h : r.Accounts before owed vs r' after)
    (h' : r'.Accounts after owed' vs' r'' after') :
    r.Accounts before (owed ++ owed') (vs ++ vs') r'' after' := by
  refine ⟨h.serves.append h'.serves, List.perm_iff_count.2 fun x => ?_⟩
  have h₁ := h.balance.count_eq x
  have h₂ := h'.balance.count_eq x
  simp only [List.count_append, records_append] at h₁ h₂ ⊢
  omega

theorem Accounts.perm (h : r.Accounts before owed vs r' after) (hb : before'.Perm before)
    (ho : owed'.Perm owed) (ha : after.Perm after') : r.Accounts before' owed' vs r' after' where
  serves := by
    have hdone : r'.Serves (after.map (·.leave)) [] r' (after'.map (·.leave)) := .done (ha.map _)
    simpa using (h.serves.perm (hb.map _)).append hdone
  balance := ((ho.append hb).trans h.balance).trans (ha.append_left _)

theorem Accounts.record (r : Registry) (x : Record) (rest : List Record) :
    r.Accounts (x :: rest) [] [.recorded x]
      (r.settle x.time x.leave.key x.leave.permit x.succeeded).registry rest :=
  ⟨.recorded (.refl _) (.done (.refl _)), .refl _⟩

end Registry

namespace Dispatcher

variable {d : Dispatcher} {deadline : Deadline} {c : Call} {r : Registry} {limit i : Nat}
  {before : List Record} {q : Http.Request}

section Issue

/-- What a call owes its breaker, if its dispatch ends at a time. -/
def record? (d : Dispatcher) (deadline : Deadline) (limit : Nat) (c : Call) : Option Record :=
  if deadline.time ≤ d.now then none
  else
    (d.ask c.request).2.join.map fun l =>
      ⟨min (d.now + (d.back deadline c).1) limit, ⟨hostKey c.request, l.permit⟩,
        (d.reaction deadline c).answersBy d.now (min deadline.time limit)⟩

def callVisits (d : Dispatcher) (deadline : Deadline) (c : Call) : List Visit :=
  if deadline.time ≤ d.now then []
  else
    match (d.ask c.request).2 with
    | none => [.asked (hostKey c.request) none]
    | some none => []
    | some (some l) =>
      .asked (hostKey c.request) (some l.permit)
        :: if (d.back deadline c).1 = 0 then [.recorded ⟨d.now, l, (d.back deadline c).2.succeeded⟩]
          else []

theorem ask_guarded (hg : d.guard = some r) (q : Http.Request) :
    (d.ask q).1.guard = some (r.allow (hostKey q)).1.registry
      ∧ (d.ask q).2 = (r.allow (hostKey q)).2.map fun p => some ⟨hostKey q, p⟩ := by
  simp only [ask, hg, and_true]
  rfl

theorem ask_key {l : Leave} (h : (d.ask q).2 = some (some l)) : l.key = hostKey q := by
  rcases hg : d.guard with _ | r
  · rw [ask_unguarded hg] at h
    cases h
  · rw [(ask_guarded hg q).2, Option.map_eq_some_iff] at h
    obtain ⟨p, -, hp⟩ := h
    cases hp
    rfl

theorem giveBack_guarded (hg : d.guard = some r) (time : Nat) (l : Leave) (succeeded : Bool) :
    (d.giveBack time l succeeded).guard
      = some (r.settle time l.key l.permit succeeded).registry := by
  simp only [giveBack, hg]
  rfl

/-- A call brings back a success exactly if the transport answered by the end of its time. -/
theorem back_succeeded (h : d.now < deadline.time) (c : Call) (limit : Nat) :
    (decide (d.now + (d.back deadline c).1 ≤ limit) && (d.back deadline c).2.succeeded)
      = (d.reaction deadline c).answersBy d.now (min deadline.time limit) := by
  by_cases hin : ∃ t, (d.reaction deadline c).delay = some t ∧ d.now + t ≤ deadline.time
  · obtain ⟨t, ht, hle⟩ := hin
    rw [back_in_time ht hle]
    rcases hr : d.reaction deadline c with ⟨delay, (response | f | _) | _⟩
    all_goals
      rw [hr] at ht
      obtain rfl : delay = some t := ht
      simp [Reaction.answersBy, Ending.ended, Ended.succeeded, Outcome.isResponse,
        Outcome.response?, hle]
  · have hlate : ∀ t, (d.reaction deadline c).delay = some t → deadline.time < d.now + t :=
      fun t ht => Nat.lt_of_not_le fun hle => hin ⟨t, ht, hle⟩
    have hnot : (d.reaction deadline c).answersBy d.now (min deadline.time limit) = false := by
      rw [← Bool.not_eq_true, Reaction.answersBy_iff]
      rintro ⟨t, response, hr, hle⟩
      have := hlate t (by rw [hr])
      omega
    rw [back_late h hlate, hnot]
    exact Bool.and_false _

/-- A call that is issued owes its breaker one record if it was let through, and else none. -/
theorem issue_accounts (deadline : Deadline) (hg : d.guard = some r) (hlimit : d.now ≤ limit)
    (i : Nat) (c : Call) (before : List Record) :
    ∃ r', (d.issue deadline i c).1.guard = some r'
      ∧ r.Accounts before (d.record? deadline limit c).toList (d.callVisits deadline c) r'
        ((d.issue deadline i c).2.promised limit ++ before) := by
  obtain ⟨hguard, hanswer⟩ := ask_guarded hg c.request
  have hgranted (l : Leave) (hask : (d.ask c.request).2 = some (some l)) :
      ∃ p, (r.allow (hostKey c.request)).2 = some p ∧ l = ⟨hostKey c.request, p⟩ := by
    rw [hask, eq_comm, Option.map_eq_some_iff] at hanswer
    obtain ⟨p, hp, hl⟩ := hanswer
    exact ⟨p, hp, (Option.some.inj hl).symm⟩
  rcases d.issue_cases deadline c with h | ⟨h, hask | ⟨l, hask, h0⟩ | ⟨leave, hask, h0⟩⟩
  · rw [issue_spent h]
    simp only [record?, callVisits, if_pos h]
    exact ⟨r, hg, .refl r before⟩
  · have hveto : (r.allow (hostKey c.request)).2 = none := by
      rw [hask] at hanswer
      exact Option.map_eq_none_iff.1 hanswer.symm
    rw [issue_vetoed h hask]
    simp only [record?, callVisits, if_neg (Nat.not_le.2 h), hask]
    exact ⟨_, hguard, .vetoed hveto (.done (.refl _)), .refl _⟩
  · obtain ⟨p, hgrant, rfl⟩ := hgranted l hask
    have hanswered := back_succeeded h c limit
    rw [h0, Nat.add_zero, decide_eq_true hlimit, Bool.true_and] at hanswered
    rw [issue_at_once h hask h0]
    simp only [record?, callVisits, if_neg (Nat.not_le.2 h), hask, h0, if_true, Nat.add_zero,
      Nat.min_eq_left hlimit, ← hanswered]
    have hover : (d.handOver deadline c).guard = _ := hguard
    exact ⟨_, giveBack_guarded hover .., .granted hgrant (.recorded (.refl _) (.done (.refl _))),
      .refl _⟩
  · rw [issue_out h hask h0]
    rcases leave with _ | l
    · -- With a guard a call is never let through without a leave.
      rw [hask, eq_comm, Option.map_eq_some_iff] at hanswer
      obtain ⟨p, -, hp⟩ := hanswer
      cases hp
    · obtain ⟨p, hgrant, rfl⟩ := hgranted l hask
      have hlater : (d.back deadline c).1 ≠ 0 := fun hback => nomatch h0 hback
      simp only [record?, callVisits, if_neg (Nat.not_le.2 h), hask, if_neg hlater,
        ← back_succeeded h c limit]
      exact ⟨_, hguard, .granted hgrant (.done (.refl _)), .refl _⟩

theorem issueAll_accounts (deadline : Deadline) (limit : Nat) : ∀ (cs : List Call)
    {d : Dispatcher} {r : Registry} (i : Nat) (before : List Record), d.guard = some r →
    d.now ≤ limit → ∃ r', (d.issueAll deadline i cs).1.guard = some r'
      ∧ r.Accounts before
        ((turns deadline d i cs).filterMap fun x => x.1.record? deadline limit x.2)
        ((turns deadline d i cs).flatMap fun x => x.1.callVisits deadline x.2) r'
        ((d.issueAll deadline i cs).2.flatMap (·.promised limit) ++ before)
  | [], _, r, _, before, hg, _ => ⟨r, hg, .refl r before⟩
  | c :: cs, d, r, i, before, hg, hlimit => by
    obtain ⟨r₁, hg₁, hfirst⟩ := issue_accounts deadline hg hlimit i c before
    obtain ⟨r₂, hg₂, hrest⟩ := issueAll_accounts deadline limit cs (i + 1) _ hg₁
      (by rw [issue_now]; exact hlimit)
    refine ⟨r₂, hg₂, (hfirst.trans hrest).perm (.refl _) (.of_eq ?_) ?_⟩
    · rw [List.filterMap_eq_flatMap_toList, List.filterMap_eq_flatMap_toList]
      rfl
    · rw [← List.append_assoc]
      exact List.perm_append_comm.append_right before

end Issue

section Promises

/-- A step of the guard starts and stops timers only. -/
theorem promises_edit (a : Agenda Job) (t : Registry.Turn) :
    promises (a.edit (edit t)).entries = promises a.entries := by
  have hkept : promises (a.entries.filter fun w => !(edit t).strikes w.2) = promises a.entries := by
    rw [promises, List.filterMap_filter]
    refine List.filterMap_congr fun x _ => ?_
    rcases x with ⟨due, j⟩
    cases j with
    | timer key u => exact ite_self _
    | giveBack l succeeded => cases hs : t.stopped <;> simp [edit, Job.timerKey?, hs]
  have hstarted : promises (edit t).enters = [] :=
    List.filterMap_eq_nil_iff.2 fun x hx => by
      obtain ⟨u, -, rfl⟩ := List.mem_map.1 hx
      rfl
  rw [Agenda.edit, promises_append, hkept, hstarted, List.append_nil]

theorem promises_ask (d : Dispatcher) (q : Http.Request) :
    promises (d.ask q).1.agenda.entries = promises d.agenda.entries := by
  unfold ask
  split
  · rfl
  · exact promises_edit ..

theorem promises_giveBack (d : Dispatcher) (time : Nat) (l : Leave) (succeeded : Bool) :
    promises (d.giveBack time l succeeded).agenda.entries = promises d.agenda.entries := by
  unfold giveBack
  split
  · rfl
  · exact promises_edit ..

theorem promises_issue (d : Dispatcher) (deadline : Deadline) (i : Nat) (c : Call) :
    promises (d.issue deadline i c).1.agenda.entries = promises d.agenda.entries := by
  rcases d.issue_cases deadline c with h | ⟨h, hask | ⟨l, hask, h0⟩ | ⟨leave, hask, h0⟩⟩
  · rw [issue_spent h]
  · rw [issue_vetoed h hask]
    exact d.promises_ask c.request
  · rw [issue_at_once h hask h0]
    exact (promises_giveBack ..).trans (d.promises_ask c.request)
  · rw [issue_out h hask h0]
    exact d.promises_ask c.request

theorem promises_issueAll (deadline : Deadline) : ∀ (cs : List Call) (d : Dispatcher) (i : Nat),
    promises (d.issueAll deadline i cs).1.agenda.entries = promises d.agenda.entries
  | [], _, _ => rfl
  | _ :: cs, _, i => (promises_issueAll deadline cs _ (i + 1)).trans (promises_issue ..)

theorem promises_launchAll : ∀ (es : List Errand) (d : Dispatcher),
    promises (d.launchAll es).1.agenda.entries = promises d.agenda.entries
  | [], _ => rfl
  | e :: es, d => (promises_launchAll es _).trans (promises_issueAll e.deadline _ d 0)

theorem promises_enrol (known entries returns : List (Nat × Job)) :
    (promises (enrol known entries returns)).Perm (promises entries ++ promises returns) := by
  have hparts : (enrol known entries returns).Perm (entries ++ returns) := by
    rw [enrol, List.append_assoc]
    refine (List.perm_append_comm.append_left _).trans ?_
    rw [← List.append_assoc]
    exact (List.filter_append_perm ..).append_right returns
  rw [← promises_append]
  exact hparts.filterMap _

/-- What the calls of a flight owe is recorded when they end or when they are cancelled. -/
theorem flight_promises {f : Flight} (h : f.airborne.length = f.calls.length) :
    (f.airborne.flatMap (·.promised f.finish)).Perm (promises f.returns ++ f.cancellations) := by
  have hreturns : (f.airborne.filter (·.finish ≤ f.finish)).flatMap (·.promised f.finish)
      = promises f.returns := by
    rw [promises, Flight.returns, List.filterMap_filterMap, List.filterMap_eq_flatMap_toList]
    refine List.flatMap_congr fun a ha => ?_
    have hle : a.finish ≤ f.finish := of_decide_eq_true (List.mem_filter.1 ha).2
    rcases hl : a.leave with _ | l
    · simp [Airborne.promised, hl]
    · simp [Airborne.promised, hl, hle, Job.record?]
  have hcancelled : (f.airborne.filter (f.finish < ·.finish)).flatMap (·.promised f.finish)
      = f.cancellations := by
    rw [← Flight.unfinished_airborne h, List.flatMap_map, Flight.cancellations, Flight.cancelled,
      List.map_filterMap, List.filterMap_eq_flatMap_toList]
    refine List.flatMap_congr fun x hx => ?_
    have hlt := (Flight.mem_airborne_of_unfinished hx).2
    rcases hl : x.2.leave with _ | l
    · simp [Airborne.promised, hl]
    · simp [Airborne.promised, hl, Nat.not_le.2 hlt, Nat.le_of_lt hlt]
  rw [← hreturns, ← hcancelled, ← List.flatMap_append]
  exact (filter_le_append_lt Airborne.finish f.finish f.airborne).symm.flatMap_right _

end Promises

end Dispatcher

end AuctionGate
