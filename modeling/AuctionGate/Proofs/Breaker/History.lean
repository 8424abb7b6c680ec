import AuctionGate.Proofs.Breaker.Circuit

/-!
# What happens at a breaker

The history of a run has an entry for everything that reaches the breaker: calls that ask and are
let through or vetoed, calls that come back, timers that ring. A call that is let through starts
its operation at once. Entries stand in the order of their times (`history_sorted`), and their
changes are what observers hear (`history_heard`).
-/

namespace AuctionGate.Circuit

open Breaker

inductive Deed where
  /-- A call was let through, and its operation started. -/
  | started (id : Nat)
  | vetoed
  /-- A call came back or was given up. -/
  | returned (id : Nat)
  | rang
  deriving DecidableEq, Repr

structure Entry where
  time : Nat
  deed : Deed
  change : Option Transition
  deriving DecidableEq, Repr

def Entry.starts (x : Entry) : Bool :=
  match x.deed with
  | .started _ => true
  | _ => false

/-- What observers hear of an entry. -/
def Entry.notice? (x : Entry) : Option (Nat × Transition) := x.change.map (x.time, ·)

def loggedReturn? (c : Config) (s : Circuit) (id : Nat) (succeeded : Bool) : Option Entry :=
  (s.calls.lookup id).map fun p =>
    ⟨s.now, .returned id, (s.breaker.settle c p succeeded).change.bind Change.transition?⟩

/-- The entry for an event, if it reaches the breaker. -/
def logged? (c : Config) (s : Circuit) : Event → Option Entry
  | .wait _ => none
  | .call => some ⟨s.now, if s.breaker.allow.isSome then .started s.admitted else .vetoed, none⟩
  | .settle id succeeded => s.loggedReturn? c id succeeded
  | .drop id => s.loggedReturn? c id false
  | .wake => none
  | .fire t =>
    if t ∈ s.woken then
      some ⟨s.now, .rang, (s.breaker.fire t).change.bind Change.transition?⟩
    else none

def history (c : Config) : Circuit → List Event → List Entry
  | _, [] => []
  | s, e :: es => (s.logged? c e).toList ++ history c (step c s e) es

variable {c : Config} {s : Circuit} {e : Event} {x : Entry} {id : Nat} {succeeded : Bool}

theorem bring_heard (c : Config) (s : Circuit) (id : Nat) (succeeded : Bool) :
    (s.bring c id succeeded).heard
      = ((s.loggedReturn? c id succeeded).bind Entry.notice?).toList ++ s.heard := by
  unfold bring loggedReturn?
  cases s.calls.lookup id <;> rfl

theorem step_heard (c : Config) (s : Circuit) (e : Event) :
    (step c s e).heard = ((s.logged? c e).bind Entry.notice?).toList ++ s.heard := by
  cases e with
  | wait ms => rfl
  | call =>
    simp only [step]
    split <;> rfl
  | settle id succeeded => exact bring_heard c s id succeeded
  | drop id => exact bring_heard c s id false
  | wake =>
    simp only [step]
    split
    · rfl
    · split_ifs <;> rfl
  | fire t =>
    simp only [step, logged?]
    split_ifs <;> rfl

/-- The changes in a history are what observers hear, in the same order. -/
theorem history_heard (c : Config) : ∀ (es : List Event) (s : Circuit),
    (run c s es).heard = ((history c s es).filterMap Entry.notice?).reverse ++ s.heard
  | [], _ => rfl
  | e :: es, s => by
    have hrest := history_heard c es (step c s e)
    rw [step_heard] at hrest
    rw [run, List.foldl_cons]
    refine hrest.trans ?_
    rw [history, List.filterMap_append, List.reverse_append, List.append_assoc]
    rcases hx : s.logged? c e with _ | x
    · rfl
    · rcases hn : x.notice? with _ | n <;> simp [hn]

theorem bring_now (c : Config) (s : Circuit) (id : Nat) (succeeded : Bool) :
    (s.bring c id succeeded).now = s.now := by
  unfold bring
  split <;> rfl

/-- Time does not go back. -/
theorem step_now_le (c : Config) (s : Circuit) (e : Event) : s.now ≤ (step c s e).now := by
  cases e with
  | wait ms => exact Nat.le_add_right ..
  | call =>
    simp only [step]
    split <;> exact Nat.le_refl _
  | settle id succeeded => exact Nat.le_of_eq (bring_now c s id succeeded).symm
  | drop id => exact Nat.le_of_eq (bring_now c s id false).symm
  | wake =>
    simp only [step]
    split
    · exact Nat.le_refl _
    · split_ifs <;> exact Nat.le_refl _
  | fire t =>
    simp only [step]
    split_ifs <;> exact Nat.le_refl _

theorem logged?_time (h : s.logged? c e = some x) : x.time = s.now := by
  have hbrought {id : Nat} {succeeded : Bool} (h : s.loggedReturn? c id succeeded = some x) :
      x.time = s.now := by
    obtain ⟨p, -, rfl⟩ := Option.map_eq_some_iff.1 h
    rfl
  cases e with
  | wait ms => cases h
  | call =>
    cases h
    rfl
  | settle id succeeded => exact hbrought h
  | drop id => exact hbrought h
  | wake => cases h
  | fire t =>
    simp only [logged?] at h
    split_ifs at h
    cases h
    rfl

theorem history_after (c : Config) : ∀ (es : List Event) (s : Circuit),
    ∀ x ∈ history c s es, s.now ≤ x.time
  | [], _, x, hx => by cases hx
  | e :: es, s, x, hx => by
    rcases List.mem_append.1 hx with hx | hx
    · exact Nat.le_of_eq (logged?_time (Option.mem_toList.1 hx)).symm
    · exact Nat.le_trans (step_now_le c s e) (history_after c es (step c s e) x hx)

/-- Entries stand in the order of their times. -/
theorem history_sorted (c : Config) : ∀ (es : List Event) (s : Circuit),
    (history c s es).Pairwise fun x y => x.time ≤ y.time
  | [], _ => .nil
  | e :: es, s => by
    refine List.pairwise_append.2 ⟨?_, history_sorted c es (step c s e), fun x hx y hy => ?_⟩
    · cases s.logged? c e with
      | none => exact .nil
      | some x => exact List.pairwise_singleton ..
    · rw [logged?_time (Option.mem_toList.1 hx)]
      exact Nat.le_trans (step_now_le c s e) (history_after c es (step c s e) y hy)

end AuctionGate.Circuit
