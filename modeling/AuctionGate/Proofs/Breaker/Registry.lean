import AuctionGate.Breaker.Registry
import Mathlib.Tactic.SplitIfs

/-!
# What a registry's steps touch

A step for one key leaves the breakers of all others alone, and their observers hear nothing. Each
recorder hears of a change once (`heardBy_announce`).
-/

namespace AuctionGate.Registry

open Breaker

variable {r : Registry} {key k : String} {now : Nat} {s : Step}

/-- The key has a breaker. -/
def Knows (r : Registry) (key : String) : Prop := (r.find? key).isSome

instance (r : Registry) (key : String) : Decidable (r.Knows key) :=
  inferInstanceAs (Decidable ((r.find? key).isSome = true))

/-- What the observer in a place heard of a key, the latest first. -/
def heardBy (r : Registry) (key : String) (place : Nat) : List (Nat × Transition) :=
  (r.notices.filter fun n => n.key = key ∧ n.observer = place).map fun n => (n.time, n.change)

theorem find?_eq_none (h : ¬ r.Knows key) : r.find? key = none := by
  simpa [Knows] using h

section Put

theorem find?_put (r : Registry) (key k : String) (b : Breaker) :
    (r.put key b).find? k = (r.find? k).map fun c => if k = key then b else c := by
  have hkeys : (fun e : String × Breaker => decide (e.1 = k)) ∘
      (fun (e : String × Breaker) => if e.1 = key then (e.1, b) else (e.1, e.2))
      = fun e => decide (e.1 = k) := by
    funext e
    simp only [Function.comp_apply]
    split_ifs <;> rfl
  simp only [put, find?, List.find?_map, hkeys, Option.map_map]
  refine Option.map_congr fun e he => ?_
  have hk : e.1 = k := by simpa using List.find?_some he
  simp only [Function.comp_apply, hk]
  split_ifs <;> rfl

theorem knows_put (r : Registry) (key k : String) (b : Breaker) :
    (r.put key b).Knows k ↔ r.Knows k := by
  simp only [Knows, find?_put, Option.isSome_map]

theorem breaker_put_self (b : Breaker) (h : r.Knows key) : (r.put key b).breaker key = b := by
  obtain ⟨c, hc⟩ := Option.isSome_iff_exists.1 h
  simp [breaker, find?_put, hc]

theorem breaker_put_of_ne (b : Breaker) (h : k ≠ key) :
    (r.put key b).breaker k = r.breaker k := by
  simp [breaker, find?_put, h]

theorem knows_of_breaker_ne (h : r.breaker key ≠ {}) : r.Knows key := by
  unfold breaker at h
  unfold Knows
  cases hf : r.find? key with
  | none =>
    rw [hf] at h
    exact absurd rfl h
  | some b => rfl

end Put

section Get

theorem get_of_knows (h : r.Knows key) : r.get key = { registry := r } := by
  obtain ⟨b, hb⟩ := Option.isSome_iff_exists.1 h
  simp only [get, hb]

theorem get_of_not_knows (h : ¬ r.Knows key) :
    r.get key = { registry := { r with breakers := r.breakers ++ [(key, {})] }
                  told := [.breakerCreated key] } := by
  simp only [get, insertIfAbsent, find?_eq_none h]

theorem find?_append_new (h : ¬ r.Knows key) :
    ({ r with breakers := r.breakers ++ [(key, {})] } : Registry).find? k
      = if k = key then some {} else r.find? k := by
  have hnone := find?_eq_none h
  split_ifs with hk
  · subst hk
    unfold find? at hnone ⊢
    rw [Option.map_eq_none_iff] at hnone
    simp [List.find?_append, hnone]
  · have hne : ¬ key = k := fun h => hk h.symm
    simp [find?, List.find?_append, hne]

/-- Making a breaker is not seen by those who look for it. -/
theorem breaker_get (r : Registry) (key k : String) :
    (r.get key).registry.breaker k = r.breaker k := by
  by_cases h : r.Knows key
  · rw [get_of_knows h]
  · rw [get_of_not_knows h]
    unfold breaker
    rw [find?_append_new h]
    split_ifs with hk
    · subst hk
      rw [find?_eq_none h]
      rfl
    · rfl

theorem knows_get (r : Registry) (key k : String) :
    (r.get key).registry.Knows k ↔ k = key ∨ r.Knows k := by
  by_cases h : r.Knows key
  · rw [get_of_knows h]
    exact ⟨.inr, fun hk => hk.elim (fun hk => hk ▸ h) id⟩
  · rw [get_of_not_knows h]
    unfold Knows
    rw [find?_append_new h]
    split_ifs with hk
    · simp [hk]
    · simp [hk]

theorem find?_get (r : Registry) (key k : String) :
    (r.get key).registry.find? k = if k = key then some (r.breaker key) else r.find? k := by
  by_cases h : r.Knows key
  · obtain ⟨b, hb⟩ := Option.isSome_iff_exists.1 h
    rw [get_of_knows h]
    split_ifs with hk
    · rw [hk, breaker, hb, Option.getD_some]
    · rfl
  · rw [get_of_not_knows h, breaker, find?_eq_none h]
    exact find?_append_new h

/-- Looking for a breaker touches nothing but the breakers. -/
theorem get_turn (r : Registry) (key : String) :
    ∃ breakers told, r.get key = { registry := { r with breakers }, told } := by
  by_cases h : r.Knows key
  · exact ⟨r.breakers, [], get_of_knows h⟩
  · exact ⟨_, _, get_of_not_knows h⟩

end Get

section Allow

variable {p : Permit} {b : Breaker}

theorem allow_of_some (h : (r.breaker key).allow = some (p, b)) :
    r.allow key
      = ({ r.get key with registry := (r.get key).registry.put key b }, some p) := by
  simp only [allow, breaker_get, h]

theorem allow_of_none (h : (r.breaker key).allow = none) :
    r.allow key
      = ({ r.get key with told := (r.get key).told ++ [.callRejected key] }, none) := by
  simp only [allow, breaker_get, h]

/-- The breaker of a key after it was asked. -/
def asked (b : Breaker) : Breaker := (b.allow.map (·.2)).getD b

theorem find?_allow (r : Registry) (key k : String) :
    (r.allow key).1.registry.find? k
      = if k = key then some (asked (r.breaker key)) else r.find? k := by
  unfold asked
  rcases hb : (r.breaker key).allow with _ | ⟨p, b⟩
  · rw [allow_of_none hb]
    exact find?_get ..
  · rw [allow_of_some hb]
    show ((r.get key).registry.put key b).find? k = _
    rw [find?_put, find?_get]
    split_ifs <;> simp

theorem allow_answer (r : Registry) (key : String) :
    (r.allow key).2 = (r.breaker key).allow.map (·.1) := by
  rcases hb : (r.breaker key).allow with _ | ⟨p, b⟩
  · rw [allow_of_none hb]
    rfl
  · rw [allow_of_some hb]
    rfl

theorem breaker_allow_none (h : (r.breaker key).allow = none) (k : String) :
    (r.allow key).1.registry.breaker k = r.breaker k := by
  rw [allow_of_none h]
  exact breaker_get ..

theorem breaker_allow_self (h : (r.breaker key).allow = some (p, b)) :
    (r.allow key).1.registry.breaker key = b := by
  rw [allow_of_some h]
  exact breaker_put_self b ((knows_get ..).2 (.inl rfl))

theorem breaker_allow_of_ne (h : k ≠ key) :
    (r.allow key).1.registry.breaker k = r.breaker k := by
  rcases hb : (r.breaker key).allow with _ | ⟨p, b⟩
  · exact breaker_allow_none hb k
  · rw [allow_of_some hb]
    exact (breaker_put_of_ne b h).trans (breaker_get ..)

theorem knows_allow : (r.allow key).1.registry.Knows k ↔ k = key ∨ r.Knows k := by
  rcases hb : (r.breaker key).allow with _ | ⟨p, b⟩
  · rw [allow_of_none hb]
    exact knows_get ..
  · rw [allow_of_some hb]
    exact (knows_put ..).trans (knows_get ..)

/-- Asking starts and stops no timer, and tells the observers nothing. -/
theorem allow_turn (r : Registry) (key : String) :
    ∃ breakers told, (r.allow key).1 = { registry := { r with breakers }, told } := by
  obtain ⟨breakers, told, hget⟩ := r.get_turn key
  rcases hb : (r.breaker key).allow with _ | ⟨p, b⟩
  · rw [allow_of_none hb, hget]
    exact ⟨_, _, rfl⟩
  · rw [allow_of_some hb, hget]
    exact ⟨_, _, rfl⟩

theorem allow_config (r : Registry) (key : String) :
    (r.allow key).1.registry.config = r.config := by
  obtain ⟨breakers, told, ht⟩ := r.allow_turn key
  rw [ht]

theorem allow_observers (r : Registry) (key : String) :
    (r.allow key).1.registry.observers = r.observers := by
  obtain ⟨breakers, told, ht⟩ := r.allow_turn key
  rw [ht]

theorem heardBy_allow (r : Registry) (key k : String) (place : Nat) :
    (r.allow key).1.registry.heardBy k place = r.heardBy k place := by
  obtain ⟨breakers, told, ht⟩ := r.allow_turn key
  rw [ht]
  rfl

end Allow

section Hear

variable {t : Transition}

theorem poolTurn_registry (r : Registry) (f : Pool → Pool.Turn) :
    ∃ p, (r.poolTurn f).registry = { r with pool := p } := by
  unfold poolTurn
  split
  · rename_i hnone
    exact ⟨none, by rw [← hnone]⟩
  · exact ⟨_, rfl⟩

theorem hear_registry (r : Registry) (now : Nat) (key : String) (t : Transition)
    (o : Observer × Nat) :
    ∃ p notices, (r.hear now key t o).registry = { r with pool := p, notices } := by
  rcases o with ⟨_ | _ | _, i⟩
  · obtain ⟨p, hp⟩ := r.poolTurn_registry (·.hear key t)
    exact ⟨p, r.notices, hp⟩
  · exact ⟨r.pool, _, rfl⟩
  · exact ⟨r.pool, r.notices, rfl⟩

theorem hearAll_registry (now : Nat) (key : String) (t : Transition) :
    ∀ (os : List (Observer × Nat)) (r : Registry),
      ∃ p notices, (hearAll now key t os r).registry = { r with pool := p, notices }
  | [], r => ⟨r.pool, r.notices, rfl⟩
  | o :: os, r => by
    obtain ⟨p, notices, hp⟩ := r.hear_registry now key t o
    obtain ⟨p', notices', hp'⟩ := hearAll_registry now key t os (r.hear now key t o).registry
    exact ⟨p', notices', by rw [hearAll, hp', hp]⟩

/-- Only a recorder notes what it hears, under its own place. -/
theorem heardBy_hear (r : Registry) (now : Nat) (key k : String) (t : Transition)
    (o : Observer × Nat) (i : Nat) :
    (r.hear now key t o).registry.heardBy k i
      = if o = (.recorder, i) ∧ k = key then (now, t) :: r.heardBy k i else r.heardBy k i := by
  rcases o with ⟨_ | _ | _, j⟩
  · obtain ⟨p, hp⟩ := r.poolTurn_registry (·.hear key t)
    rw [hear, hp]
    simp [heardBy]
  · simp only [hear, heardBy, List.filter_cons, Prod.mk.injEq, true_and, decide_eq_true_eq]
    by_cases hk : k = key <;> by_cases hj : j = i <;> simp [hk, hj, eq_comm (a := key)]
  · simp [hear]

/-- Each recorder hears a transition once. -/
theorem heardBy_hearAll (now : Nat) (key k : String) (t : Transition) (i : Nat) :
    ∀ (os : List Observer) (n : Nat) (r : Registry),
      (hearAll now key t (os.zipIdx n) r).registry.heardBy k i
        = if n ≤ i ∧ os[i - n]? = some .recorder ∧ k = key then (now, t) :: r.heardBy k i
          else r.heardBy k i
  | [], n, r => by simp [hearAll]
  | o :: os, n, r => by
    rw [List.zipIdx_cons, hearAll]
    show (hearAll now key t (os.zipIdx (n + 1)) (r.hear now key t (o, n)).registry).registry.heardBy
      k i = _
    rw [heardBy_hearAll now key k t i os (n + 1), heardBy_hear]
    rcases Nat.lt_trichotomy i n with hlt | rfl | hlt
    · have hne : n ≠ i := by omega
      simp [hne, Nat.not_le.2 hlt, show ¬ n + 1 ≤ i by omega]
    · simp [show ¬ i + 1 ≤ i by omega]
    · have hne : n ≠ i := by omega
      obtain ⟨d, rfl⟩ := Nat.exists_eq_add_of_lt hlt
      simp [hne, show n ≤ n + d + 1 by omega, show n + 1 ≤ n + d + 1 by omega,
        show n + d + 1 - (n + 1) = d by omega, show n + d + 1 - n = d + 1 by omega]

end Hear

section Carry

theorem carry_registry (r : Registry) (now : Nat) (key : String) (s : Step) :
    ∃ p notices, (r.carry now key s).registry
      = { r.put key s.breaker with pool := p, notices } := by
  unfold carry announce
  split
  · split
    · exact hearAll_registry ..
    · exact ⟨r.pool, r.notices, rfl⟩
  · exact ⟨r.pool, r.notices, rfl⟩

theorem carry_stopped (r : Registry) (now : Nat) (key : String) (s : Step) :
    (r.carry now key s).stopped = if s.stops then some key else none := rfl

theorem carry_started (r : Registry) (now : Nat) (key : String) (s : Step) :
    (r.carry now key s).started
      = s.started.map fun (delay, timer) => ⟨now + delay.toNat, key, timer⟩ := rfl

theorem carry_config (r : Registry) (now : Nat) (key : String) (s : Step) :
    (r.carry now key s).registry.config = r.config := by
  obtain ⟨p, notices, hp⟩ := r.carry_registry now key s
  rw [hp]
  rfl

theorem carry_observers (r : Registry) (now : Nat) (key : String) (s : Step) :
    (r.carry now key s).registry.observers = r.observers := by
  obtain ⟨p, notices, hp⟩ := r.carry_registry now key s
  rw [hp]
  rfl

theorem carry_breakers (r : Registry) (now : Nat) (key : String) (s : Step) :
    (r.carry now key s).registry.breakers = (r.put key s.breaker).breakers := by
  obtain ⟨p, notices, hp⟩ := r.carry_registry now key s
  rw [hp]

theorem knows_carry : (r.carry now key s).registry.Knows k ↔ r.Knows k := by
  rw [← knows_put r key k s.breaker]
  simp only [Knows, find?, carry_breakers]

theorem breaker_carry_self (h : r.Knows key) :
    (r.carry now key s).registry.breaker key = s.breaker := by
  rw [← breaker_put_self s.breaker h]
  simp only [breaker, find?, carry_breakers]

theorem breaker_carry_of_ne (h : k ≠ key) :
    (r.carry now key s).registry.breaker k = r.breaker k := by
  rw [← breaker_put_of_ne (r := r) s.breaker h]
  simp only [breaker, find?, carry_breakers]

/-- A recorder hears of a step what it changed. -/
theorem heardBy_carry {i : Nat} (h : r.observers[i]? = some .recorder) :
    (r.carry now key s).registry.heardBy k i
      = if k = key then
          ((s.change.bind Change.transition?).map (now, ·)).toList ++ r.heardBy k i
        else r.heardBy k i := by
  have hput : (r.put key s.breaker).observers[i]? = some .recorder := h
  unfold carry announce
  cases s.change with
  | none => simp [put, heardBy]
  | some c =>
    cases ht : c.transition? with
    | none => simp [ht, put, heardBy]
    | some t =>
      simp only [ht, heardBy_hearAll, Nat.zero_le, Nat.sub_zero, hput, true_and, Option.bind_some]
      rfl

end Carry

end AuctionGate.Registry
