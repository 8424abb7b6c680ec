import AuctionGate.Proofs.Pool.Following
import AuctionGate.Proofs.Telemetry.Ledger

/-!
# A log of transitions

What is announced of a breaker is an exact log of its state. In any run of a registry every observer
is told the same, in the same order: that the breaker opened, that it is half open, and after that
that it opened again or that it closed. The counters count what was announced (`run_log`).

Until it is announced closed again, one call other than a probe opens a breaker at most. That does
not bound what the calls of one closed period can do: one that comes back in a later closed period
counts there (`late_failure_reopens`).
-/

namespace AuctionGate

open Breaker

namespace Breaker

/-- Openings with the probes after them. -/
def cycles (n : Nat) : List Transition := (List.replicate n [.opened, .halfOpened]).flatten

/-- From an opening to the closing after it. -/
def outage (n : Nat) : List Transition := cycles (n + 1) ++ [.closed]

def Transition.state : Transition → State
  | opened => .opened
  | halfOpened => .halfOpen
  | closed => .closed

def Transition.metric : Transition → Metric
  | opened => .breakerOpened
  | halfOpened => .breakerHalfOpened
  | closed => .breakerClosed

/-- From one state to another by transitions that a breaker can make. -/
inductive Leads : State → List Transition → State → Prop
  | nil (q : State) : Leads q [] q
  | opened {q q' : State} {l : List Transition} :
    q ≠ .opened → Leads .opened l q' → Leads q (.opened :: l) q'
  | halfOpened {q : State} {l : List Transition} :
    Leads .halfOpen l q → Leads .opened (.halfOpened :: l) q
  | closed {q : State} {l : List Transition} :
    Leads .closed l q → Leads .halfOpen (.closed :: l) q

variable {q q' q'' : State} {l l' : List Transition}

section Leads

theorem Leads.append (h : Leads q l q') (h' : Leads q' l' q'') : Leads q (l ++ l') q'' := by
  induction h with
  | nil => exact h'
  | opened hne _ ih => exact .opened hne (ih h')
  | halfOpened _ ih => exact .halfOpened (ih h')
  | closed _ ih => exact .closed (ih h')

theorem Leads.last (h : Leads q l q') : q' = (l.getLast?.map Transition.state).getD q := by
  induction h with
  | nil => rfl
  | opened _ _ ih | halfOpened _ ih | closed _ ih =>
    rw [ih, List.getLast?_cons]
    cases List.getLast? _ <;> rfl

theorem Leads.not_closed (h : Leads q l q') (hq : q ≠ .closed) (hl : .closed ∉ l) :
    q' ≠ .closed := by
  rw [h.last]
  cases hlast : l.getLast? with
  | none => exact hq
  | some t =>
    have ht : t ≠ .closed := fun ht => hl (ht ▸ List.mem_of_getLast? hlast)
    cases t with
    | opened => exact nofun
    | halfOpened => exact nofun
    | closed => exact absurd rfl ht

/-- What is still to come of an outage in a state. -/
def ahead (n : Nat) : State → List Transition
  | .closed => []
  | .opened => .halfOpened :: cycles n ++ [.closed]
  | .halfOpen => cycles n ++ [.closed]

theorem opened_ahead (n : Nat) : .opened :: ahead n .opened = outage n := rfl

theorem Leads.is_prefix (h : Leads q l q') :
    ∃ n ns, l <+: ahead n q ++ List.flatMap outage ns := by
  induction h with
  | nil => exact ⟨0, [], List.nil_prefix⟩
  | @opened q _ _ hq _ ih =>
    obtain ⟨n, ns, hl⟩ := ih
    have hl' := (List.prefix_cons_inj Transition.opened).2 hl
    rw [← List.cons_append, opened_ahead] at hl'
    cases q with
    | closed => exact ⟨0, n :: ns, hl'⟩
    | opened => exact absurd rfl hq
    | halfOpen => exact ⟨n + 1, ns, hl'⟩
  | halfOpened _ ih =>
    obtain ⟨n, ns, hl⟩ := ih
    exact ⟨n, ns, (List.prefix_cons_inj _).2 hl⟩
  | closed _ ih =>
    obtain ⟨n, ns, hl⟩ := ih
    exact ⟨0, ns, (List.prefix_cons_inj _).2 hl⟩

end Leads

end Breaker

def Pool.follow (p : Pool) : Option (String × Transition) → Pool
  | none => p.refresh.pool
  | some (key, t) => (p.hear key t).pool

theorem Pool.Kept.follow {p : Pool} (hp : p.Kept) :
    ∀ cue : Option (String × Transition), (p.follow cue).Kept
  | none => hp.refresh
  | some _ => hp.hear

theorem Pool.Kept.foldl_follow : ∀ (cues : List (Option (String × Transition))) {p : Pool},
    p.Kept → (cues.foldl Pool.follow p).Kept
  | [], _, hp => hp
  | cue :: cues, _, hp => Pool.Kept.foldl_follow cues (hp.follow cue)

namespace Registry

/-- The step of a breaker in a move, with its time and key. -/
def step? (r : Registry) : Move → Option (Nat × String × Step)
  | .settle now key p succeeded =>
    if r.Knows key then some (now, key, (r.breaker key).settle r.config p succeeded) else none
  | .fire now key t => if r.Knows key then some (now, key, (r.breaker key).fire t) else none
  | _ => none

/-- A move with all it returns. -/
def turn (r : Registry) : Move → Turn
  | .get key => r.get key
  | .allow key => (r.allow key).1
  | .settle now key p succeeded =>
    if r.Knows key then r.settle now key p succeeded else { registry := r }
  | .fire now key t => if r.Knows key then r.fire now key t else { registry := r }
  | .refresh => r.poolTurn Pool.refresh

def trace {β : Type} (f : Registry → Move → List β) : Registry → List Move → List β
  | _, [] => []
  | r, m :: ms => f r m ++ trace f (r.move m) ms

/-- What is announced of the breaker of a key. -/
def announced (key : String) (r : Registry) (m : Move) : List (Nat × Transition) :=
  ((r.step? m).bind fun (now, k, st) =>
    if k = key then (st.change.bind Change.transition?).map (now, ·) else none).toList

/-- The answer to who asks for leave for a key. -/
def answers (key : String) (r : Registry) : Move → List (Option Permit)
  | .allow k => if k = key then [(r.allow k).2] else []
  | _ => []

/-- The call of a key that comes back, and what is announced of that. -/
def returns (key : String) (r : Registry) (m : Move) : List (Permit × Option Transition) :=
  match m with
  | .settle _ k p _ => if k = key then [(p, (r.announced key m).head?.map (·.2))] else []
  | _ => []

/-- What the pool among the observers goes by: what is announced of any breaker, and refreshes. -/
def cues (r : Registry) (m : Move) : List (Option (String × Transition)) :=
  if m = .refresh then [none]
  else ((r.step? m).bind fun (_, k, st) =>
    (st.change.bind Change.transition?).map fun t => some (k, t)).toList

def log (key : String) (r : Registry) (ms : List Move) : List (Nat × Transition) :=
  r.trace (announced key) ms

def told (r : Registry) (ms : List Move) : List Occurrence :=
  r.trace (fun r m => (r.turn m).told) ms

variable {r : Registry} {key k : String} {m : Move} {ms : List Move} {now : Nat} {st : Step}
  {t : Transition}

section Moves

theorem turn_registry (r : Registry) (m : Move) : (r.turn m).registry = r.move m := by
  cases m with
  | settle | fire =>
    simp only [turn, move]
    split_ifs <;> rfl
  | _ => rfl

/-- A move carries out a step of one breaker, or does not announce anything. -/
theorem turn_cases (r : Registry) (m : Move) :
    (∃ now key st, r.step? m = some (now, key, st) ∧ r.turn m = r.carry now key st ∧ r.Knows key
        ∧ st.Tells (r.breaker key) ∧ m ≠ .refresh)
      ∨ r.step? m = none ∧ (r.move m).observers = r.observers
        ∧ (∀ k, ((r.move m).breaker k).state = (r.breaker k).state)
        ∧ ∀ k i, (r.move m).heardBy k i = r.heardBy k i := by
  cases m with
  | get key =>
    obtain ⟨breakers, told, ht⟩ := r.get_turn key
    refine .inr ⟨rfl, ?_, fun k => ?_, fun k i => ?_⟩
    · simp only [move, ht]
    · simp only [move, breaker_get]
    · simp only [move, ht]
      rfl
  | allow key =>
    exact .inr ⟨rfl, r.allow_observers key, fun k => r.state_allow key k,
      fun k i => r.heardBy_allow key k i⟩
  | settle now key p succeeded =>
    by_cases hk : r.Knows key
    · refine .inl ⟨now, key, _, if_pos hk, if_pos hk, hk, settle_tells .., by simp⟩
    · right
      simp only [step?, move, if_neg hk, implies_true, and_self]
  | fire now key t =>
    by_cases hk : r.Knows key
    · refine .inl ⟨now, key, _, if_pos hk, if_pos hk, hk, fire_tells .., by simp⟩
    · right
      simp only [step?, move, if_neg hk, implies_true, and_self]
  | refresh =>
    obtain ⟨p, hp⟩ := r.poolTurn_registry Pool.refresh
    refine .inr ⟨rfl, ?_, fun k => ?_, fun k i => ?_⟩
    · simp only [move, hp]
    · simp only [move, hp]
      rfl
    · simp only [move, hp]
      rfl

theorem announced_step (h : r.step? m = some (now, k, st)) :
    r.announced key m
      = if k = key then ((st.change.bind Change.transition?).map (now, ·)).toList else [] := by
  simp only [announced, h, Option.bind_some]
  split_ifs <;> rfl

theorem announced_none (h : r.step? m = none) : r.announced key m = [] := by
  rw [announced, h]
  rfl

/-- What is announced is how the state changes. -/
theorem leads_move (r : Registry) (key : String) (m : Move) :
    Leads (r.breaker key).state ((r.announced key m).map (·.2))
      ((r.move m).breaker key).state := by
  rcases r.turn_cases m with ⟨now, k, st, hstep, hturn, hk, htells, -⟩ | ⟨hstep, -, hstate, -⟩
  · rw [← turn_registry, hturn, announced_step hstep]
    split_ifs with hkey
    · subst hkey
      rw [breaker_carry_self hk]
      unfold Step.Tells at htells
      cases htold : st.change.bind Change.transition? with
      | none =>
        rw [htold] at htells
        rw [htells]
        exact .nil _
      | some t =>
        rw [htold] at htells
        cases t with
        | opened =>
          rw [htells.2]
          exact .opened htells.1 (.nil _)
        | halfOpened =>
          rw [htells.1, htells.2]
          exact .halfOpened (.nil _)
        | closed =>
          rw [htells.1, htells.2]
          exact .closed (.nil _)
    · rw [breaker_carry_of_ne (Ne.symm hkey)]
      exact .nil _
  · rw [announced_none hstep, hstate]
    exact .nil _

theorem heardBy_move {i : Nat} (h : r.observers[i]? = some .recorder) (key : String) (m : Move) :
    (r.move m).heardBy key i = (r.announced key m).reverse ++ r.heardBy key i := by
  rcases r.turn_cases m with ⟨now, k, st, hstep, hturn, hk, -, -⟩ | ⟨hstep, -, -, hheard⟩
  · rw [← turn_registry, hturn, announced_step hstep, heardBy_carry h]
    simp only [eq_comm (a := key)]
    split_ifs
    · cases st.change.bind Change.transition? <;> rfl
    · rfl
  · rw [announced_none hstep, hheard]
    rfl

theorem observers_move (r : Registry) (m : Move) : (r.move m).observers = r.observers := by
  rcases r.turn_cases m with ⟨now, k, st, -, hturn, -⟩ | ⟨-, hobs, -⟩
  · rw [← turn_registry, hturn, carry_observers]
  · exact hobs

end Moves

section Counters

variable {s : Series}

theorem hits_account (t : Transition) (key k : String) (c : Change) :
    (account k c).hits ⟨t.metric, [("key", key)]⟩
      = if k = key ∧ c.transition? = some t then 1 else 0 := by
  cases c <;> cases t <;>
    simp [account, Occurrence.hits, Occurrence.touches, Transition.metric, Change.transition?]

theorem hits_rejected (t : Transition) (key k : String) :
    (Occurrence.callRejected k).hits ⟨t.metric, [("key", key)]⟩ = 0 := by
  cases t <;> simp [Occurrence.hits, Occurrence.touches, Transition.metric]

theorem hits_of_apart {o : Occurrence} (h : ∀ e ∈ o.touches, e.1.metric ∉ Metric.ofBreakers)
    (hs : s.metric ∈ Metric.ofBreakers) : o.hits s = 0 := by
  refine List.countP_eq_zero.2 fun e he hes => h e he ?_
  rw [of_decide_eq_true hes]
  exact hs

/-- A pool that takes an address out or back touches no counter of breakers. -/
theorem hits_of_moves {o : Occurrence} (h : o.moves = true) (hs : s.metric ∈ Metric.ofBreakers) :
    o.hits s = 0 := by
  refine hits_of_apart ?_ hs
  cases o with
  | addressRemoved => simp [Occurrence.touches, Metric.ofBreakers]
  | addressAdded => simp [Occurrence.touches, Metric.ofBreakers]
  | addressIgnored => simp [Occurrence.touches]
  | _ => cases h

theorem sum_hits_eq_zero {os : List Occurrence} (h : ∀ o ∈ os, o.hits s = 0) :
    (os.map (·.hits s)).sum = 0 := by
  rw [List.sum_eq_zero_iff_forall_eq_nat]
  intro n hn
  obtain ⟨o, ho, rfl⟩ := List.mem_map.1 hn
  exact h o ho

theorem hits_carry (hs : s.metric ∈ Metric.ofBreakers) (r : Registry) (now : Nat) (key : String)
    (st : Step) : ((r.carry now key st).told.map (·.hits s)).sum
      = (st.change.map fun c => (account key c).hits s).getD 0 := by
  obtain ⟨rest, hrest, htold⟩ := r.carry_told now key st
  have hzero := sum_hits_eq_zero (s := s) fun o ho => hits_of_moves (hrest o ho) hs
  rw [htold, List.map_append, List.sum_append, hzero]
  cases st.change <;> simp

theorem hits_get (s : Series) (r : Registry) (key : String) :
    ((r.get key).told.map (·.hits s)).sum = 0 := by
  by_cases h : r.Knows key
  · rw [get_of_knows h]
    rfl
  · rw [get_of_not_knows h]
    rfl

theorem hits_allow (s : Series) (r : Registry) (key : String) :
    ((r.allow key).1.told.map (·.hits s)).sum
      = if (r.breaker key).allow = none then (Occurrence.callRejected key).hits s else 0 := by
  have hnew : (((if r.Knows key then [] else [Occurrence.breakerCreated key]) :
      List Occurrence).map (·.hits s)).sum = 0 := by
    split_ifs <;> rfl
  rw [allow_told_eq, List.map_append, List.sum_append, hnew]
  split_ifs <;> simp

theorem hits_refresh (hs : s.metric ∈ Metric.ofBreakers) (r : Registry) :
    ((r.poolTurn Pool.refresh).told.map (·.hits s)).sum = 0 := by
  refine sum_hits_eq_zero fun o ho => hits_of_apart ?_ hs
  unfold poolTurn at ho
  split at ho
  · cases ho
  · rw [List.mem_singleton.1 ho]
    simp [Occurrence.touches, Metric.ofBreakers]

theorem counted_move (t : Transition) (key : String) (r : Registry) (m : Move) :
    ((r.turn m).told.map (·.hits ⟨t.metric, [("key", key)]⟩)).sum
      = (r.announced key m).countP (·.2 = t) := by
  have hs : t.metric ∈ Metric.ofBreakers := by cases t <;> decide
  rcases r.turn_cases m with ⟨now, k, st, hstep, hturn, -⟩ | ⟨hstep, -⟩
  · rw [hturn, announced_step hstep, hits_carry hs]
    simp only [hits_account]
    by_cases hk : k = key
    · cases st.change with
      | none => simp [hk]
      | some c => cases hc : c.transition? <;> simp [hk, hc, List.countP_cons]
    · cases st.change <;> simp [hk]
  · rw [announced_none hstep]
    cases m with
    | get k => exact hits_get ..
    | allow k =>
      refine (hits_allow ..).trans ?_
      rw [hits_rejected, ite_self]
      rfl
    | settle | fire =>
      simp only [step?] at hstep
      split_ifs at hstep with hk
      simp only [turn, if_neg hk]
      rfl
    | refresh => exact hits_refresh hs r

theorem rejected_move (key : String) (r : Registry) (m : Move) :
    ((r.turn m).told.map (·.hits ⟨.breakerRejected, [("key", key)]⟩)).sum
      = (r.answers key m).count none := by
  have hs : Metric.breakerRejected ∈ Metric.ofBreakers := by decide
  have hcarry (now : Nat) (k : String) (st : Step) :
      ((r.carry now k st).told.map (·.hits ⟨.breakerRejected, [("key", key)]⟩)).sum = 0 := by
    rw [hits_carry hs]
    rcases st.change with _ | _ | _ | _ | _ <;> rfl
  cases m with
  | get k => exact hits_get ..
  | allow k =>
    refine (hits_allow ..).trans ?_
    simp only [answers, allow_answer]
    by_cases hk : k = key
    · cases (r.breaker k).allow <;> simp [hk, Occurrence.hits, Occurrence.touches]
    · simp [hk, Occurrence.hits, Occurrence.touches]
  | settle | fire =>
    simp only [turn]
    split_ifs
    · exact hcarry ..
    · rfl
  | refresh => exact hits_refresh hs r

end Counters

section Pools

variable {p : Pool}

theorem cues_step (h : r.step? m = some (now, k, st)) (hm : m ≠ .refresh) :
    r.cues m = ((st.change.bind Change.transition?).map fun t => some (k, t)).toList := by
  simp only [cues, if_neg hm, h, Option.bind_some]

theorem pool_move (h : r.pool = some p) (hp : p.Kept) (ho : .pool ∈ r.observers) (m : Move) :
    (r.move m).pool = some ((r.cues m).foldl Pool.follow p) := by
  rcases r.turn_cases m with ⟨now, k, st, hstep, hturn, -, -, hm⟩ | ⟨hstep, -⟩
  · rw [← turn_registry, hturn, carry_pool h hp ho, cues_step hstep hm]
    cases st.change.bind Change.transition? <;> rfl
  · cases m with
    | get key =>
      obtain ⟨breakers, told, ht⟩ := r.get_turn key
      simp only [move, ht]
      exact h
    | allow key =>
      obtain ⟨breakers, told, ht⟩ := r.allow_turn key
      simp only [move, ht]
      exact h
    | settle | fire =>
      simp only [step?] at hstep
      split_ifs at hstep with hk
      simp only [move, cues, step?, if_neg hk]
      exact h
    | refresh =>
      simp only [move, poolTurn, h]
      rfl

/-- Of one breaker the pool hears what everybody else hears. -/
theorem cues_announced (key : String) (r : Registry) (m : Move) :
    (r.cues m).filterMap (fun cue => cue.bind fun (k, t) => if k = key then some t else none)
      = (r.announced key m).map (·.2) := by
  rcases r.turn_cases m with ⟨now, k, st, hstep, -, -, -, hm⟩ | ⟨hstep, -⟩
  · rw [announced_step hstep, cues_step hstep hm]
    cases st.change.bind Change.transition? <;> by_cases hk : k = key <;> simp [hk]
  · rw [announced_none hstep, cues, hstep]
    split_ifs <;> rfl

end Pools

section Runs

theorem heardBy_run {i : Nat} (key : String) : ∀ (ms : List Move) {r : Registry},
    r.observers[i]? = some .recorder →
      (r.run ms).heardBy key i = (r.log key ms).reverse ++ r.heardBy key i
  | [], _, _ => rfl
  | m :: ms, r, h => by
    have hrest := heardBy_run key ms (r := r.move m) (by rw [observers_move, h])
    rw [heardBy_move h] at hrest
    rw [log, trace, List.reverse_append, List.append_assoc]
    exact hrest

theorem leads_run (key : String) : ∀ (ms : List Move) (r : Registry),
    Leads (r.breaker key).state ((r.log key ms).map (·.2)) ((r.run ms).breaker key).state
  | [], _ => .nil _
  | m :: ms, r => by
    rw [log, trace, List.map_append]
    exact (r.leads_move key m).append (leads_run key ms (r.move m))

theorem pool_run : ∀ (ms : List Move) {r : Registry} {p : Pool}, r.pool = some p → p.Kept →
    .pool ∈ r.observers →
      (r.run ms).pool = some ((r.trace cues ms).foldl Pool.follow p)
  | [], _, _, h, _, _ => h
  | m :: ms, r, p, h, hp, ho => by
    rw [trace, List.foldl_append]
    exact pool_run ms (pool_move h hp ho m) (hp.foldl_follow _) (by rwa [observers_move])

theorem cues_log (key : String) : ∀ (ms : List Move) (r : Registry),
    (r.trace cues ms).filterMap
        (fun cue => cue.bind fun (k, t) => if k = key then some t else none)
      = (r.log key ms).map (·.2)
  | [], _ => rfl
  | m :: ms, r => by
    rw [log, trace, trace, List.filterMap_append, List.map_append, cues_announced,
      cues_log key ms (r.move m)]
    rfl

theorem counted_run (t : Transition) (key : String) : ∀ (ms : List Move) (r : Registry),
    ((r.told ms).map (·.hits ⟨t.metric, [("key", key)]⟩)).sum = (r.log key ms).countP (·.2 = t)
  | [], _ => rfl
  | m :: ms, r => by
    rw [log, told, trace, trace, List.map_append, List.sum_append, List.countP_append,
      counted_move, ← log, ← counted_run t key ms (r.move m)]
    rfl

theorem rejected_run (key : String) : ∀ (ms : List Move) (r : Registry),
    ((r.told ms).map (·.hits ⟨.breakerRejected, [("key", key)]⟩)).sum
      = (r.trace (answers key) ms).count none
  | [], _ => rfl
  | m :: ms, r => by
    rw [told, trace, trace, List.map_append, List.sum_append, List.count_append, rejected_move,
      ← rejected_run key ms (r.move m)]
    rfl

/-- A call other than the probe opens a breaker only if it comes back to a closed one. -/
theorem opens_of_returns (h : (⟨false⟩, some .opened) ∈ r.returns key m) :
    (r.breaker key).state = .closed ∧ ((r.move m).breaker key).state = .opened
      ∧ r.returns key m = [(⟨false⟩, some .opened)] := by
  cases m with
  | settle now k p succeeded =>
    simp only [returns] at h ⊢
    split_ifs at h with hk
    · subst hk
      obtain ⟨rfl, hopened⟩ := Prod.mk.inj (List.mem_singleton.1 h)
      rw [if_pos rfl, ← hopened]
      have hleads := r.leads_move k (.settle now k ⟨false⟩ succeeded)
      by_cases hknows : r.Knows k
      · have hstep : r.step? (.settle now k ⟨false⟩ succeeded) = some (now, k, _) := if_pos hknows
        rw [announced_step hstep, if_pos rfl] at hopened hleads
        have hst : (r.breaker k).state = .closed := by
          by_contra hst
          rw [settle_of_ne hst] at hopened
          cases hopened
        cases hchange : ((r.breaker k).settle r.config ⟨false⟩ succeeded).change.bind
            Change.transition? with
        | none =>
          rw [hchange] at hopened
          cases hopened
        | some t =>
          rw [hchange] at hopened hleads
          cases hopened
          exact ⟨hst, hleads.last, rfl⟩
      · have hstep : r.step? (.settle now k ⟨false⟩ succeeded) = none := if_neg hknows
        rw [announced_none hstep] at hopened
        cases hopened
    · cases h
  | _ => cases h

theorem returns_open_once (key : String) : ∀ (ms : List Move) (r : Registry),
    .closed ∉ (r.log key ms).map (·.2) →
      (r.trace (returns key) ms).count (⟨false⟩, some .opened)
        ≤ if (r.breaker key).state = .closed then 1 else 0
  | [], _, _ => Nat.zero_le _
  | m :: ms, r, h => by
    rw [log, trace, List.map_append, List.mem_append, not_or] at h
    have hrest := returns_open_once key ms (r.move m) h.2
    rw [trace, List.count_append]
    -- after a call has opened it the breaker stays away from closed, and no other call can
    by_cases hm : (⟨false⟩, some .opened) ∈ r.returns key m
    · obtain ⟨hst, hst', hret⟩ := opens_of_returns hm
      rw [if_neg (by rw [hst']; nofun)] at hrest
      rw [hst, if_pos rfl, hret, List.count_singleton_self]
      omega
    · rw [List.count_eq_zero_of_not_mem hm, Nat.zero_add]
      refine Nat.le_trans hrest ?_
      by_cases hst : (r.breaker key).state = .closed
      · rw [if_pos hst]
        split_ifs <;> omega
      · rw [if_neg ((r.leads_move key m).not_closed hst h.1)]
        exact Nat.zero_le _

end Runs

section Main

/-- In any run of a registry, and for any key: all recorders hear the same, and a pool hears that
too. It is openings, probes and closings in turn, and ends in the state of the breaker. The counters
count it, and the calls that were vetoed. Until the next closing, one call other than a probe opens
the breaker at most. -/
theorem run_log (config : Config) (observers : List Observer) (pool : Option Pool)
    (ms : List Move) (key : String) :
    let r₀ : Registry := { config, observers, pool }
    let r := r₀.run ms
    let log := r₀.log key ms
    let ledger := Journal.ledger (Journal.note [] (r₀.told ms))
    (∀ i, observers[i]? = some .recorder → (r.heardBy key i).reverse = log)
      ∧ (∀ p, pool = some p → p.Kept → .pool ∈ observers →
        r.pool = some ((r₀.trace cues ms).foldl Pool.follow p))
      ∧ (r₀.trace cues ms).filterMap
          (fun cue => cue.bind fun (k, t) => if k = key then some t else none) = log.map (·.2)
      ∧ (∃ ns : List Nat, log.map (·.2) <+: ns.flatMap outage)
      ∧ (r.breaker key).state = (log.getLast?.map (·.2.state)).getD .closed
      ∧ (∀ t : Transition, ledger.read? ⟨t.metric, [("key", key)]⟩
        = Ledger.counter? (log.countP (·.2 = t)))
      ∧ ledger.read? ⟨.breakerRejected, [("key", key)]⟩
        = Ledger.counter? ((r₀.trace (answers key) ms).count none)
      ∧ ∀ ms', .closed ∉ (r.log key ms').map (·.2) →
        (r.trace (returns key) ms').count (⟨false⟩, some .opened) ≤ 1 := by
  intro r₀ r log ledger
  have hleads : Leads .closed (log.map (·.2)) (r.breaker key).state := leads_run key ms r₀
  have hread (s : Series) (hs : s.metric.kind = .counter) :
      ledger.read? s = Ledger.counter? ((r₀.told ms).map (·.hits s)).sum := by
    rw [Journal.read?_counter _ hs, Journal.note, List.append_nil, List.map_reverse,
      List.sum_reverse]
  refine ⟨fun i hi => ?_, fun p hp hk ho => pool_run ms hp hk ho, cues_log key ms r₀, ?_, ?_,
    fun t => ?_, ?_, fun ms' hms' => ?_⟩
  · rw [heardBy_run key ms hi]
    exact (congrArg List.reverse (List.append_nil _)).trans (List.reverse_reverse _)
  · obtain ⟨_, ns, hns⟩ := hleads.is_prefix
    exact ⟨ns, hns⟩
  · rw [hleads.last, List.getLast?_map, Option.map_map]
    rfl
  · rw [hread _ (by cases t <;> rfl), counted_run]
  · rw [hread _ rfl, rejected_run]
  · refine Nat.le_trans (returns_open_once key ms' r hms') ?_
    split_ifs <;> omega

/-- A breaker opens and closes again, and vetoes a call in between. -/
theorem run_log_outage :
    let r₀ : Registry := { config := ⟨1, 1000, 100⟩, observers := [.recorder] }
    let ms : List Move := [.allow "a", .settle 5 "a" ⟨false⟩ false, .allow "a",
      .fire 105 "a" ⟨1, .awaitProbe⟩, .allow "a", .settle 110 "a" ⟨true⟩ true]
    ((r₀.run ms).heardBy "a" 0).reverse = [(5, .opened), (105, .halfOpened), (110, .closed)]
      ∧ (Journal.ledger (Journal.note [] (r₀.told ms))).read? ⟨.breakerRejected, [("key", "a")]⟩
        = some (.count 1)
      ∧ ((r₀.run ms).trace (returns "a") [.allow "a", .allow "a", .settle 120 "a" ⟨false⟩ false,
        .settle 120 "a" ⟨false⟩ false]).count (⟨false⟩, some .opened) ≤ 1 := by
  intro r₀ ms
  obtain ⟨hheard, -, -, -, -, -, hrejected, honce⟩ :=
    run_log ⟨1, 1000, 100⟩ [.recorder] none ms "a"
  refine ⟨(hheard 0 rfl).trans (by decide), hrejected.trans (by decide), honce _ (by decide)⟩

/-- Two calls are let through before anything is announced, and no other after them but the probe.
Still both open the breaker: the second comes back after the probe has closed it. -/
theorem late_failure_reopens :
    ¬ ∀ (config : Config) (ms ms' : List Move) (key : String),
      let r₀ : Registry := { config }
      let r := r₀.run ms
      r₀.log key ms = [] → (r.trace (answers key) ms').count (some ⟨false⟩) = 0 →
        (r.trace (returns key) ms').countP (·.1 = ⟨false⟩)
          ≤ (r₀.trace (answers key) ms).count (some ⟨false⟩) →
        (r.trace (returns key) ms').count (⟨false⟩, some .opened) ≤ 1 := by
  intro h
  have honce := h ⟨1, 1000, 100⟩ [.allow "a", .allow "a"] [.settle 0 "a" ⟨false⟩ false,
    .fire 100 "a" ⟨1, .awaitProbe⟩, .allow "a", .settle 100 "a" ⟨true⟩ true,
    .settle 100 "a" ⟨false⟩ false] "a" (by decide) (by decide) (by decide)
  exact absurd honce (by decide)

end Main

end Registry

end AuctionGate
