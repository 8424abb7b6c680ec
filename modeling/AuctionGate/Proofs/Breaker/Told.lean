import AuctionGate.Proofs.Breaker.Registry
import AuctionGate.Proofs.Breaker.Steps
import AuctionGate.Telemetry.Journal

/-!
# What is told of breakers

Observers hear of a step how the state of its breaker changes (`Step.Tells`), and asking for leave
changes no state. Of a step the journal is told its change, and what the pool makes of that. So it
is told of an opening exactly if the step opens its breaker (`carry_opens`), and asking for leave
tells it of none.
-/

namespace AuctionGate

namespace Breaker

/-- What observers hear of a step is how the state changes. -/
def Step.Tells (st : Step) (b : Breaker) : Prop :=
  match st.change.bind Change.transition? with
  | none => st.breaker.state = b.state
  | some .opened => b.state ≠ .opened ∧ st.breaker.state = .opened
  | some .halfOpened => b.state = .opened ∧ st.breaker.state = .halfOpen
  | some .closed => b.state = .halfOpen ∧ st.breaker.state = .closed

variable {c : Config} {b : Breaker}

theorem trip_tells (h : b.state ≠ .opened) {b' : Breaker} : (trip c b').Tells b := ⟨h, rfl⟩

theorem fail_tells (h : b.state = .closed) : (b.fail c).Tells b := by
  simp only [fail]
  split_ifs
  · exact trip_tells (by rw [h]; decide)
  · exact rfl
  · exact rfl

theorem settle_tells (c : Config) (p : Permit) (succeeded : Bool) (b : Breaker) :
    (b.settle c p succeeded).Tells b := by
  simp only [settle]
  split_ifs with hp hst hs hst hs
  · exact rfl
  · exact ⟨not_not.1 hst, rfl⟩
  · exact trip_tells (by rw [not_not.1 hst]; decide)
  · exact rfl
  · exact rfl
  · exact fail_tells (not_not.1 hst)

theorem fire_tells (b : Breaker) (t : Timer) : (b.fire t).Tells b := by
  simp only [fire]
  split_ifs
  · exact rfl
  · split
    · exact rfl
    · rename_i hst
      exact ⟨hst, rfl⟩
    · exact rfl

end Breaker

open Breaker

namespace Occurrence

/-- The breaker of an address opens. -/
def opens (a : String) : Occurrence → Bool
  | breakerOpened key _ => key = a
  | _ => false

def refreshes : Occurrence → Bool
  | poolRefreshed .. => true
  | _ => false

/-- A pool takes an address out, puts it back or does not know it. -/
def moves : Occurrence → Bool
  | addressRemoved .. => true
  | addressAdded .. => true
  | addressIgnored .. => true
  | _ => false

/-- Neither an opening nor a refresh. -/
def Still (o : Occurrence) : Prop := o.refreshes = false ∧ ∀ a, o.opens a = false

theorem still_of_moves {o : Occurrence} (h : o.moves = true) : o.Still := by
  cases o with
  | addressRemoved => exact ⟨rfl, fun _ => rfl⟩
  | addressAdded => exact ⟨rfl, fun _ => rfl⟩
  | addressIgnored => exact ⟨rfl, fun _ => rfl⟩
  | _ => cases h

end Occurrence

variable {a key k : String} {r : Registry} {st : Step} {now : Nat} {t : Transition}

theorem Pool.hear_told (p : Pool) (key : String) (t : Transition) :
    ∀ o ∈ (p.hear key t).told, o.moves = true := by
  intro o ho
  cases t with
  | opened =>
    simp only [hear, remove] at ho
    split_ifs at ho
    · rw [List.mem_singleton.1 ho]
      rfl
    · cases ho
  | halfOpened =>
    simp only [hear, add] at ho
    split_ifs at ho
    · cases ho
    · rw [List.mem_singleton.1 ho]
      rfl
    · rw [List.mem_singleton.1 ho]
      rfl
  | closed => cases ho

namespace Registry

theorem hear_told (r : Registry) (now : Nat) (key : String) (t : Transition) (x : Observer × Nat) :
    ∀ o ∈ (r.hear now key t x).told, o.moves = true := by
  rcases x with ⟨_ | _ | _, i⟩
  · unfold hear poolTurn
    dsimp only
    split
    · exact fun _ h => nomatch h
    · exact Pool.hear_told _ key t
  · exact fun _ h => nomatch h
  · exact fun _ h => nomatch h

theorem hearAll_told (now : Nat) (key : String) (t : Transition) :
    ∀ (os : List (Observer × Nat)) (r : Registry),
      ∀ o ∈ (hearAll now key t os r).told, o.moves = true
  | [], _, _, h => nomatch h
  | x :: os, r, o, h => by
    rcases List.mem_append.1 h with h | h
    · exact r.hear_told now key t x o h
    · exact hearAll_told now key t os _ o h

/-- Of a step the journal is told its change, and what the pool makes of that. -/
theorem carry_told (r : Registry) (now : Nat) (key : String) (st : Step) :
    ∃ rest, (∀ o ∈ rest, o.moves = true)
      ∧ (r.carry now key st).told = (st.change.map (account key)).toList ++ rest := by
  unfold carry announce
  cases st.change with
  | none => exact ⟨[], fun _ h => (nomatch h), rfl⟩
  | some c =>
    cases ht : c.transition? with
    | none => exact ⟨[], fun _ h => (nomatch h), by simp [ht]⟩
    | some t =>
      simp only [ht]
      exact ⟨_, hearAll_told now key t (r.put key st.breaker).observers.zipIdx _, rfl⟩

theorem account_refreshes (key : String) (c : Change) : (account key c).refreshes = false := by
  cases c <;> rfl

theorem account_opens (key a : String) (c : Change) :
    (account key c).opens a = false ↔ ¬ (a = key ∧ c.transition? = some .opened) := by
  cases c <;> simp [account, Occurrence.opens, Change.transition?, eq_comm]

theorem carry_refreshes : ∀ o ∈ (r.carry now key st).told, o.refreshes = false := by
  obtain ⟨rest, hrest, htold⟩ := r.carry_told now key st
  intro o ho
  rw [htold, List.mem_append, Option.mem_toList] at ho
  rcases ho with ho | ho
  · obtain ⟨c, -, rfl⟩ := Option.map_eq_some_iff.1 ho
    exact account_refreshes key c
  · exact (Occurrence.still_of_moves (hrest o ho)).1

theorem carry_opens : (∀ o ∈ (r.carry now key st).told, o.opens a = false)
    ↔ ¬ (a = key ∧ st.change.bind Change.transition? = some .opened) := by
  obtain ⟨rest, hrest, htold⟩ := r.carry_told now key st
  have hall : ∀ o ∈ rest, o.opens a = false :=
    fun o ho => (Occurrence.still_of_moves (hrest o ho)).2 a
  rw [htold, List.forall_mem_append]
  cases st.change with
  | none => simpa using hall
  | some c =>
    simp only [Option.map_some, Option.toList_some, List.forall_mem_singleton, Option.bind_some]
    exact (and_iff_left hall).trans (account_opens key a c)

theorem state_allow (r : Registry) (key a : String) :
    ((r.allow key).1.registry.breaker a).state = (r.breaker a).state := by
  by_cases ha : a = key
  · subst ha
    rcases hall : (r.breaker a).allow with _ | ⟨q, b⟩
    · rw [breaker_allow_none hall]
    · rw [breaker_allow_self hall]
      rcases allow_cases hall with ⟨-, -, rfl⟩ | ⟨-, -, -, rfl⟩ <;> rfl
  · rw [breaker_allow_of_ne ha]

/-- Of asking for leave the journal is told a new breaker and a veto. -/
theorem allow_told_eq (r : Registry) (key : String) :
    (r.allow key).1.told = (if r.Knows key then [] else [.breakerCreated key])
      ++ if (r.breaker key).allow = none then [.callRejected key] else [] := by
  have hget : (r.get key).told = if r.Knows key then [] else [.breakerCreated key] := by
    split_ifs with h
    · rw [get_of_knows h]
    · rw [get_of_not_knows h]
  rcases hall : (r.breaker key).allow with _ | ⟨p, b⟩
  · rw [allow_of_none hall, hget, if_pos rfl]
  · rw [allow_of_some hall, hget, if_neg (Option.some_ne_none (p, b)), List.append_nil]

theorem allow_told (r : Registry) (key : String) : ∀ o ∈ (r.allow key).1.told, o.Still := by
  intro o ho
  rw [allow_told_eq, List.mem_append] at ho
  rcases ho with ho | ho
  · split_ifs at ho
    · cases ho
    · rw [List.mem_singleton.1 ho]
      exact ⟨rfl, fun _ => rfl⟩
  · split_ifs at ho
    · rw [List.mem_singleton.1 ho]
      exact ⟨rfl, fun _ => rfl⟩
    · cases ho

end Registry

end AuctionGate
