import AuctionGate.Dispatch.Flight
import Mathlib.Logic.Basic
import Mathlib.Tactic.SplitIfs

/-!
# What a launch is like

Every call of an errand goes up once and in its turn (`launchAll_index`). What goes up does not
depend on the journal, so the flights that a dispatcher launches are those whose results it gives
(`dispatchAll_flights`).
-/

namespace AuctionGate.Dispatcher

variable {d d' : Dispatcher} {deadline : Deadline} {e : Errand} {f : Flight}

section Journal

/-- Two dispatchers have the same in hand, whatever their journals hold. -/
structure Peers (d d' : Dispatcher) : Prop where
  transport : d'.transport = d.transport
  guard : d'.guard = d.guard
  now : d'.now = d.now
  agenda : d'.agenda = d.agenda
  sent : d'.sent = d.sent

theorem Peers.hold (h : Peers d d') (t : Registry.Turn) : Peers (d.hold t) (d'.hold t) :=
  ⟨h.transport, rfl, h.now, congrArg (·.edit (edit t)) h.agenda, h.sent⟩

theorem Peers.ask (h : Peers d d') (r : Http.Request) :
    Peers (d.ask r).1 (d'.ask r).1 ∧ (d'.ask r).2 = (d.ask r).2 := by
  unfold Dispatcher.ask
  rw [h.guard]
  split
  · exact ⟨h, rfl⟩
  · exact ⟨h.hold _, rfl⟩

theorem Peers.giveBack (h : Peers d d') (time : Nat) (l : Leave) (succeeded : Bool) :
    Peers (d.giveBack time l succeeded) (d'.giveBack time l succeeded) := by
  unfold Dispatcher.giveBack
  rw [h.guard]
  split
  · exact h
  · exact h.hold _

theorem Peers.send (h : Peers d d') (r : Http.Request) (timeout : Nat) :
    Peers (d.send r timeout).1 (d'.send r timeout).1
      ∧ (d'.send r timeout).2 = (d.send r timeout).2 := by
  unfold Dispatcher.send
  rw [h.transport, h.sent]
  exact ⟨⟨rfl, h.guard, h.now, h.agenda, rfl⟩, rfl⟩

theorem Peers.issue (h : Peers d d') (deadline : Deadline) (i : Nat) (c : Call) :
    Peers (d.issue deadline i c).1 (d'.issue deadline i c).1
      ∧ (d'.issue deadline i c).2 = (d.issue deadline i c).2 := by
  obtain ⟨hask, hleave⟩ := h.ask c.request
  simp only [Dispatcher.issue, h.now]
  -- A call goes up at all if there is time left, and is sent if the guard gives leave.
  split_ifs
  · exact ⟨h, rfl⟩
  · rcases hd : d.ask c.request with ⟨d₁, leave⟩
    rcases hd' : d'.ask c.request with ⟨d₁', leave'⟩
    rw [hd, hd'] at hask hleave
    obtain rfl : leave' = leave := hleave
    rcases leave' with _ | leave
    · exact ⟨hask, congrArg (Airborne.mk i · (.settled ⟨openCircuit, true⟩) none) hask.now⟩
    · obtain ⟨hsend, hreaction⟩ := hask.send c.request (deadline.remaining d.now)
      simp only [hreaction, hsend.now]
      split
      · exact ⟨hsend.giveBack _ _ _, rfl⟩
      · exact ⟨hsend, rfl⟩

theorem Peers.issueAll (deadline : Deadline) : ∀ (cs : List Call) {d d' : Dispatcher} (i : Nat),
    Peers d d' → Peers (d.issueAll deadline i cs).1 (d'.issueAll deadline i cs).1
      ∧ (d'.issueAll deadline i cs).2 = (d.issueAll deadline i cs).2
  | [], _, _, _, h => ⟨h, rfl⟩
  | c :: cs, d, d', i, h => by
    obtain ⟨hfirst, hair⟩ := h.issue deadline i c
    obtain ⟨hrest, hairs⟩ := Peers.issueAll deadline cs (i + 1) hfirst
    exact ⟨hrest, congrArg₂ List.cons hair hairs⟩

theorem Peers.launchAll : ∀ (es : List Errand) {d d' : Dispatcher}, Peers d d' →
    (d'.launchAll es).2 = (d.launchAll es).2
  | [], _, _, _ => rfl
  | e :: es, d, d', h => by
    obtain ⟨hrest, hair⟩ := Peers.issueAll e.deadline (e.adapter.build e.auction).1 0 h
    refine congrArg₂ List.cons ?_ (Peers.launchAll es hrest)
    simp only [hair, h.now]

theorem Peers.after_launchAll : ∀ (es : List Errand) {d d' : Dispatcher}, Peers d d' →
    Peers (d.launchAll es).1 (d'.launchAll es).1
  | [], _, _, h => h
  | e :: es, _, _, h =>
    Peers.after_launchAll es (Peers.issueAll e.deadline (e.adapter.build e.auction).1 0 h).1

theorem Peers.note (d : Dispatcher) (os : List Occurrence) :
    Peers d { d with journal := d.journal.note os } :=
  ⟨rfl, rfl, rfl, rfl, rfl⟩

/-- A dispatcher gives the results of the flights that it launches, with the time they took. -/
theorem dispatchAll_flights (d : Dispatcher) (es : List Errand) :
    (d.dispatchAll es).2 = (d.launchAll es).2.map fun f => (f.result, f.elapsed) := by
  rw [← (Peers.note d (es.flatMap Errand.toldIfEmpty)).launchAll es]
  rfl

end Journal

section Places

theorem issue_index (d : Dispatcher) (deadline : Deadline) (i : Nat) (c : Call) :
    (d.issue deadline i c).2.index = i := by
  unfold issue
  simp only
  split_ifs
  · rfl
  · split
    · rfl
    · split <;> rfl

theorem issueAll_index (deadline : Deadline) : ∀ (cs : List Call) (d : Dispatcher) (i : Nat),
    (d.issueAll deadline i cs).2.map (·.index) = List.range' i cs.length
  | [], _, _ => rfl
  | c :: cs, d, i => by
    rw [List.length_cons, List.range'_succ, ← issueAll_index deadline cs]
    exact congrArg₂ List.cons (issue_index d deadline i c) rfl

theorem launch_length (d : Dispatcher) (e : Errand) :
    (d.launch e).2.airborne.length = (d.launch e).2.calls.length := by
  have hindex := congrArg List.length (issueAll_index e.deadline (e.adapter.build e.auction).1 d 0)
  rwa [List.length_map, List.length_range'] at hindex

theorem launch_airborne_nil (h : (d.launch e).2.calls = []) : (d.launch e).2.airborne = [] :=
  List.length_eq_zero_iff.1 (by rw [launch_length, h, List.length_nil])

theorem launchAll_index : ∀ (es : List Errand) {d : Dispatcher} {f : Flight},
    f ∈ (d.launchAll es).2 → f.airborne.map (·.index) = List.range f.calls.length
  | [], _, _, h => by cases h
  | e :: es, d, f, h => by
    rcases List.mem_cons.1 h with rfl | h
    · exact (issueAll_index ..).trans (List.range_eq_range' ..).symm
    · exact launchAll_index es h

end Places

end AuctionGate.Dispatcher
