import AuctionGate.Dispatch.Flight
import Mathlib.Tactic.SplitIfs

/-!
# What issuing a call does

A call without time left is not issued, one that its breaker vetoes comes back at once, and any
other is handed to the transport with the time that is left (`issue_cases`). What was handed over
is never taken back, and no time passes.

`turns` lists the calls of a dispatch, each with the dispatcher that it finds.
-/

namespace AuctionGate

/-- A breaker gives every outcome back as it took it. -/
theorem Outcome.relayed_eq (o : Outcome) : o.relayed = o := by
  cases o <;> rfl

theorem Reaction.relayed_eq (r : Reaction) : r.relayed = r := by
  rcases r with ⟨delay, o | _⟩
  · exact congrArg (fun o => Reaction.mk delay (.outcome o)) o.relayed_eq
  · rfl

theorem Reaction.cut_le (r : Reaction) (remaining : Nat) : (r.cut remaining).1 ≤ remaining := by
  unfold cut
  split
  · rename_i t h
    simpa using (Option.filter_eq_some_iff.1 h).2
  · exact Nat.le_refl _

theorem Reaction.cut_in_time {r : Reaction} {remaining t : Nat} (h : r.delay = some t)
    (ht : t ≤ remaining) : r.cut remaining = (t, r.ending.ended) := by
  simp [cut, h, Option.filter, ht]

theorem Reaction.cut_late {r : Reaction} {remaining : Nat}
    (h : ∀ t, r.delay = some t → remaining < t) :
    r.cut remaining = (remaining, .settled ⟨.timeout, true⟩) := by
  unfold cut
  split
  · rename_i t ht
    obtain ⟨hd, hle⟩ := Option.filter_eq_some_iff.1 ht
    have hlt := h t hd
    simp only [decide_eq_true_eq] at hle
    omega
  · rfl

namespace Dispatcher

variable {d : Dispatcher} {deadline : Deadline} {i : Nat} {c : Call} {r : Http.Request}

section Frame

theorem ask_now (d : Dispatcher) (r : Http.Request) : (d.ask r).1.now = d.now := by
  unfold ask
  split <;> rfl

theorem ask_sent (d : Dispatcher) (r : Http.Request) : (d.ask r).1.sent = d.sent := by
  unfold ask
  split <;> rfl

theorem ask_transport (d : Dispatcher) (r : Http.Request) :
    (d.ask r).1.transport = d.transport := by
  unfold ask
  split <;> rfl

theorem giveBack_now (d : Dispatcher) (time : Nat) (l : Leave) (succeeded : Bool) :
    (d.giveBack time l succeeded).now = d.now := by
  unfold giveBack
  split <;> rfl

theorem giveBack_sent (d : Dispatcher) (time : Nat) (l : Leave) (succeeded : Bool) :
    (d.giveBack time l succeeded).sent = d.sent := by
  unfold giveBack
  split <;> rfl

theorem ask_aborted (d : Dispatcher) (r : Http.Request) : (d.ask r).1.aborted = d.aborted := by
  unfold ask
  split <;> rfl

theorem giveBack_aborted (d : Dispatcher) (time : Nat) (l : Leave) (succeeded : Bool) :
    (d.giveBack time l succeeded).aborted = d.aborted := by
  unfold giveBack
  split <;> rfl

theorem giveBack_transport (d : Dispatcher) (time : Nat) (l : Leave) (succeeded : Bool) :
    (d.giveBack time l succeeded).transport = d.transport := by
  unfold giveBack
  split <;> rfl

theorem ask_unguarded (h : d.guard = none) (r : Http.Request) : d.ask r = (d, some none) := by
  simp only [ask, h]

end Frame

section Issue

/-- What the transport is handed for a call. -/
def handed (d : Dispatcher) (deadline : Deadline) (c : Call) : Sent :=
  ⟨c.request, deadline.remaining d.now⟩

/-- What the transport makes of a call. -/
def reaction (d : Dispatcher) (deadline : Deadline) (c : Call) : Reaction :=
  d.transport (d.sent.map (·.request)) c.request (deadline.remaining d.now)

/-- After how long a call comes back that is handed to the transport, and how. -/
def back (d : Dispatcher) (deadline : Deadline) (c : Call) : Nat × Ended :=
  (d.reaction deadline c).cut (deadline.remaining d.now)

theorem back_in_time {t : Nat} (h : (d.reaction deadline c).delay = some t)
    (ht : d.now + t ≤ deadline.time) :
    d.back deadline c = (t, (d.reaction deadline c).ending.ended) :=
  Reaction.cut_in_time h (show t ≤ deadline.time - d.now by omega)

theorem back_late (hnow : d.now < deadline.time)
    (h : ∀ t, (d.reaction deadline c).delay = some t → deadline.time < d.now + t) :
    d.back deadline c = (deadline.time - d.now, .settled ⟨.timeout, true⟩) := by
  refine Reaction.cut_late fun t ht => ?_
  have hlt := h t ht
  unfold Deadline.remaining
  omega

def handOver (d : Dispatcher) (deadline : Deadline) (c : Call) : Dispatcher :=
  { (d.ask c.request).1 with sent := d.handed deadline c :: d.sent }

theorem issue_spent (h : deadline.time ≤ d.now) (i : Nat) (c : Call) :
    d.issue deadline i c = (d, ⟨i, d.now, .settled ⟨.timeout, false⟩, none⟩) := by
  have hzero : deadline.remaining d.now = 0 := Nat.sub_eq_zero_of_le h
  simp only [issue, hzero, if_true]

theorem remaining_ne_zero (h : d.now < deadline.time) : deadline.remaining d.now ≠ 0 :=
  Nat.ne_of_gt (Nat.sub_pos_of_lt h)

theorem issue_vetoed (h : d.now < deadline.time) (hask : (d.ask c.request).2 = none) :
    d.issue deadline i c
      = ((d.ask c.request).1, ⟨i, d.now, .settled ⟨openCircuit, true⟩, none⟩) := by
  have hnow := d.ask_now c.request
  simp only [issue, if_neg (remaining_ne_zero h)]
  rcases hd : d.ask c.request with ⟨d', leave⟩
  rw [hd] at hask hnow
  obtain rfl : leave = none := hask
  rw [← hnow]

theorem send_ask (d : Dispatcher) (deadline : Deadline) (c : Call) :
    (d.ask c.request).1.send c.request (deadline.remaining d.now)
      = (d.handOver deadline c, d.reaction deadline c) := by
  simp only [send, handOver, reaction, handed, ask_sent, ask_transport]

/-- A call that comes back at once gives its leave back at once. -/
theorem issue_at_once {l : Leave} (h : d.now < deadline.time)
    (hask : (d.ask c.request).2 = some (some l)) (hback : (d.back deadline c).1 = 0) :
    d.issue deadline i c
      = ((d.handOver deadline c).giveBack d.now l (d.back deadline c).2.succeeded,
        ⟨i, d.now, (d.back deadline c).2, none⟩) := by
  have hover := d.send_ask deadline c
  have hnow : (d.handOver deadline c).now = d.now := d.ask_now c.request
  simp only [issue, if_neg (remaining_ne_zero h)]
  rcases hd : d.ask c.request with ⟨d', leave⟩
  rw [hd] at hask hover
  obtain rfl : leave = some (some l) := hask
  rw [back] at hback
  simp only [hover, hback, hnow, back, Reaction.relayed_eq, ite_self]

/-- Any other call that is let through stays out with its leave. -/
theorem issue_out {leave : Option Leave} (h : d.now < deadline.time)
    (hask : (d.ask c.request).2 = some leave) (hback : (d.back deadline c).1 = 0 → leave = none) :
    d.issue deadline i c = (d.handOver deadline c,
      ⟨i, d.now + (d.back deadline c).1, (d.back deadline c).2, leave⟩) := by
  have hover := d.send_ask deadline c
  have hnow : (d.handOver deadline c).now = d.now := d.ask_now c.request
  simp only [issue, if_neg (remaining_ne_zero h)]
  rcases hd : d.ask c.request with ⟨d', leave'⟩
  rw [hd] at hask hover
  obtain rfl : leave' = some leave := hask
  simp only [hover, hnow, Reaction.relayed_eq, ite_self]
  rw [back] at hback ⊢
  split
  · rename_i h0
    exact absurd (hback h0) (Option.some_ne_none _)
  · rfl

/-- A call is not issued, or vetoed, or comes back at once, or stays out. -/
theorem issue_cases (d : Dispatcher) (deadline : Deadline) (c : Call) :
    deadline.time ≤ d.now
      ∨ d.now < deadline.time ∧ ((d.ask c.request).2 = none
        ∨ (∃ l, (d.ask c.request).2 = some (some l) ∧ (d.back deadline c).1 = 0)
        ∨ ∃ leave, (d.ask c.request).2 = some leave
          ∧ ((d.back deadline c).1 = 0 → leave = none)) := by
  rcases Nat.lt_or_ge d.now deadline.time with h | h
  · refine .inr ⟨h, ?_⟩
    rcases (d.ask c.request).2 with _ | _ | l
    · exact .inl rfl
    · exact .inr (.inr ⟨none, rfl, fun _ => rfl⟩)
    · by_cases h0 : (d.back deadline c).1 = 0
      · exact .inr (.inl ⟨l, rfl, h0⟩)
      · exact .inr (.inr ⟨some l, rfl, fun h => absurd h h0⟩)
  · exact .inl h

theorem issue_now (d : Dispatcher) (deadline : Deadline) (i : Nat) (c : Call) :
    (d.issue deadline i c).1.now = d.now := by
  rcases d.issue_cases deadline c with h | ⟨h, hask | ⟨l, hask, h0⟩ | ⟨leave, hask, h0⟩⟩
  · rw [issue_spent h]
  · rw [issue_vetoed h hask]
    exact d.ask_now c.request
  · rw [issue_at_once h hask h0]
    exact (giveBack_now ..).trans (d.ask_now c.request)
  · rw [issue_out h hask h0]
    exact d.ask_now c.request

/-- Who issues a call cancels none. -/
theorem issue_aborted (d : Dispatcher) (deadline : Deadline) (i : Nat) (c : Call) :
    (d.issue deadline i c).1.aborted = d.aborted := by
  rcases d.issue_cases deadline c with h | ⟨h, hask | ⟨l, hask, h0⟩ | ⟨leave, hask, h0⟩⟩
  · rw [issue_spent h]
  · rw [issue_vetoed h hask]
    exact d.ask_aborted c.request
  · rw [issue_at_once h hask h0]
    exact (giveBack_aborted ..).trans (d.ask_aborted c.request)
  · rw [issue_out h hask h0]
    exact d.ask_aborted c.request

/-- A call is handed over once if there is time left and it is let through, and else not. -/
theorem issue_sent (h : d.now < deadline.time) (i : Nat) (c : Call) :
    (d.issue deadline i c).1.sent
      = if (d.ask c.request).2.isSome then d.handed deadline c :: d.sent else d.sent := by
  rcases d.issue_cases deadline c with h' | ⟨-, hask | ⟨l, hask, h0⟩ | ⟨leave, hask, h0⟩⟩
  · omega
  · rw [issue_vetoed h hask, hask]
    exact d.ask_sent c.request
  · rw [issue_at_once h hask h0, hask]
    exact giveBack_sent ..
  · rw [issue_out h hask h0, hask]
    rfl

theorem issue_finish (d : Dispatcher) (deadline : Deadline) (i : Nat) (c : Call) :
    d.now ≤ (d.issue deadline i c).2.finish
      ∧ (d.issue deadline i c).2.finish ≤ max d.now deadline.time := by
  rcases d.issue_cases deadline c with h | ⟨h, hask | ⟨l, hask, h0⟩ | ⟨leave, hask, h0⟩⟩
  · rw [issue_spent h]
    exact ⟨Nat.le_refl _, Nat.le_max_left ..⟩
  · rw [issue_vetoed h hask]
    exact ⟨Nat.le_refl _, Nat.le_max_left ..⟩
  · rw [issue_at_once h hask h0]
    exact ⟨Nat.le_refl _, Nat.le_max_left ..⟩
  · rw [issue_out h hask h0]
    have hle : (d.back deadline c).1 ≤ deadline.time - d.now := Reaction.cut_le _ _
    simp only
    omega

/-- A call that is let through comes back when and as the transport's reaction is cut. -/
theorem issue_back {leave : Option Leave} (h : d.now < deadline.time)
    (hask : (d.ask c.request).2 = some leave) (i : Nat) :
    (d.issue deadline i c).2.finish = d.now + (d.back deadline c).1
      ∧ (d.issue deadline i c).2.ended = (d.back deadline c).2 := by
  rcases d.issue_cases deadline c with h' | ⟨-, hask' | ⟨l, hask', h0⟩ | ⟨leave', hask', h0⟩⟩
  · omega
  · rw [hask'] at hask
    cases hask
  · rw [issue_at_once h hask' h0, h0]
    exact ⟨rfl, rfl⟩
  · rw [issue_out h hask' h0]
    exact ⟨rfl, rfl⟩

theorem issue_unguarded (h : d.guard = none) (deadline : Deadline) (i : Nat) (c : Call) :
    (d.issue deadline i c).1.guard = none := by
  have hask := d.ask_unguarded h c.request
  rcases d.issue_cases deadline c with hlt | ⟨hlt, hask' | ⟨l, hask', -⟩ | ⟨leave, hask', h0⟩⟩
  · rw [issue_spent hlt]
    exact h
  · rw [hask] at hask'
    cases hask'
  · rw [hask] at hask'
    cases hask'
  · rw [issue_out hlt hask' h0]
    simp only [handOver, hask, h]

end Issue

section Turns

/-- The calls of a dispatch in their order, each with the dispatcher that it finds. -/
def turns (deadline : Deadline) : Dispatcher → Nat → List Call → List (Dispatcher × Call)
  | _, _, [] => []
  | d, i, c :: cs => (d, c) :: turns deadline (d.issue deadline i c).1 (i + 1) cs

theorem turns_calls (deadline : Deadline) : ∀ (cs : List Call) (d : Dispatcher) (i : Nat),
    (turns deadline d i cs).map (·.2) = cs
  | [], _, _ => rfl
  | c :: cs, _, i => congrArg (c :: ·) (turns_calls deadline cs _ (i + 1))

theorem turns_now (deadline : Deadline) : ∀ (cs : List Call) (d : Dispatcher) (i : Nat),
    ∀ x ∈ turns deadline d i cs, x.1.now = d.now
  | [], _, _, _, hx => nomatch hx
  | c :: cs, d, i, x, hx => by
    rcases List.mem_cons.1 hx with rfl | hx
    · rfl
    · rw [turns_now deadline cs _ (i + 1) x hx, issue_now]

theorem turns_unguarded (deadline : Deadline) : ∀ (cs : List Call) (d : Dispatcher) (i : Nat),
    d.guard = none → ∀ x ∈ turns deadline d i cs, x.1.guard = none
  | [], _, _, _, _, hx => nomatch hx
  | c :: cs, d, i, h, x, hx => by
    rcases List.mem_cons.1 hx with rfl | hx
    · exact h
    · exact turns_unguarded deadline cs _ (i + 1) (issue_unguarded h ..) x hx

/-- What goes up is what each call becomes in its turn. -/
theorem issueAll_eq (deadline : Deadline) : ∀ (cs : List Call) (d : Dispatcher) (i : Nat),
    (d.issueAll deadline i cs).2
      = ((turns deadline d i cs).zipIdx i).map fun x => (x.1.1.issue deadline x.2 x.1.2).2
  | [], _, _ => rfl
  | c :: cs, d, i => congrArg ((d.issue deadline i c).2 :: ·) (issueAll_eq deadline cs _ (i + 1))

theorem issueAll_now (deadline : Deadline) : ∀ (cs : List Call) (d : Dispatcher) (i : Nat),
    (d.issueAll deadline i cs).1.now = d.now
  | [], _, _ => rfl
  | _ :: cs, _, i => (issueAll_now deadline cs _ (i + 1)).trans (issue_now ..)

theorem issueAll_aborted (deadline : Deadline) : ∀ (cs : List Call) (d : Dispatcher) (i : Nat),
    (d.issueAll deadline i cs).1.aborted = d.aborted
  | [], _, _ => rfl
  | _ :: cs, _, i => (issueAll_aborted deadline cs _ (i + 1)).trans (issue_aborted ..)

/-- The calls that are let through are handed over, each once and in their order. -/
theorem issueAll_sent (deadline : Deadline) : ∀ (cs : List Call) (d : Dispatcher) (i : Nat),
    d.now < deadline.time → (d.issueAll deadline i cs).1.sent
      = (((turns deadline d i cs).filter fun x => (x.1.ask x.2.request).2.isSome).map
        fun x => ⟨x.2.request, deadline.time - d.now⟩).reverse ++ d.sent
  | [], _, _, _ => rfl
  | c :: cs, d, i, h => by
    have hrest := issueAll_sent deadline cs (d.issue deadline i c).1 (i + 1)
      (by rw [issue_now]; exact h)
    rw [issue_now, issue_sent h] at hrest
    rw [turns, List.filter_cons]
    refine hrest.trans ?_
    -- The first call is the earliest of those handed over, and so the last in the list.
    split_ifs
    · rw [List.map_cons, List.reverse_cons, List.append_assoc]
      rfl
    · rfl

theorem issueAll_spent {d : Dispatcher} (h : deadline.time ≤ d.now) : ∀ (cs : List Call) (i : Nat),
    d.issueAll deadline i cs
      = (d, (List.range' i cs.length).map fun i => ⟨i, d.now, .settled ⟨.timeout, false⟩, none⟩)
  | [], _ => rfl
  | c :: cs, i => by
    simp only [issueAll, issue_spent h, issueAll_spent h cs (i + 1)]
    rfl

end Turns

section Launch

def turnsOf (d : Dispatcher) (e : Errand) : List (Dispatcher × Call) :=
  turns e.deadline d 0 (e.adapter.build e.auction).1

theorem launch_now (d : Dispatcher) (e : Errand) : (d.launch e).1.now = d.now :=
  issueAll_now ..

theorem launchAll_now : ∀ (es : List Errand) (d : Dispatcher), (d.launchAll es).1.now = d.now
  | [], _ => rfl
  | e :: es, d => (launchAll_now es _).trans (launch_now d e)

theorem launchAll_aborted : ∀ (es : List Errand) (d : Dispatcher),
    (d.launchAll es).1.aborted = d.aborted
  | [], _ => rfl
  | e :: es, d => (launchAll_aborted es _).trans (issueAll_aborted e.deadline _ d 0)

theorem launchAll_append : ∀ (es es' : List Errand) (d : Dispatcher),
    (d.launchAll (es ++ es')).1 = ((d.launchAll es).1.launchAll es').1
  | [], _, _ => rfl
  | e :: es, es', d => launchAll_append es es' (d.launch e).1

/-- Each errand is launched by the dispatcher as those before it leave it. -/
theorem launchAll_getElem? : ∀ (es : List Errand) (d : Dispatcher) (i : Nat),
    (d.launchAll es).2[i]? = es[i]?.map fun e => ((d.launchAll (es.take i)).1.launch e).2
  | [], _, _ => rfl
  | _ :: _, _, 0 => rfl
  | e :: es, d, i + 1 => launchAll_getElem? es (d.launch e).1 i

/-- Every flight is that of some errand, launched at the same time. -/
theorem exists_launch {es : List Errand} {f : Flight} (h : f ∈ (d.launchAll es).2) :
    ∃ before : Dispatcher, before.now = d.now ∧ ∃ e ∈ es, (before.launch e).2 = f := by
  obtain ⟨i, hi⟩ := List.mem_iff_getElem?.1 h
  rw [launchAll_getElem?, Option.map_eq_some_iff] at hi
  obtain ⟨e, he, hf⟩ := hi
  exact ⟨_, launchAll_now (es.take i) d, e, List.mem_of_getElem? he, hf⟩

end Launch

end Dispatcher

end AuctionGate
