import AuctionGate.Breaker.Watch
import AuctionGate.Proofs.Agenda.Share
import AuctionGate.Proofs.Breaker.Registry
import AuctionGate.Proofs.Pool.Membership
import Mathlib.Data.Option.Basic

/-!
# Registries that agree on some keys

Two registries agree on some keys if they have the same breakers for them, were told the same of
them, and their pools have the same of them in rotation. The order of drawing may differ, as the
removal of any address may change it.

Doing the same to both keeps that, and so does anything done to one of them for another key
(`Agree.carry`, `Agree.carry_left`).
-/

namespace AuctionGate

open Breaker

variable {own : String → Bool} {key k a b : String} {now : Nat} {t : Transition} {st : Step}

namespace Pool

variable {p p' : Pool}

section Count

theorem count_swapRemove (a b : String) (l : List String) :
    (swapRemove a l).count b = l.count b - if a == b then 1 else 0 := by
  rw [(swapRemove_perm a l).count_eq, List.count_erase]

theorem count_hear_of_ne (h : b ≠ a) : (p.hear a t).pool.live.count b = p.live.count b := by
  cases t with
  | opened =>
    simp only [hear, remove]
    split_ifs
    · simp [count_swapRemove, h.symm]
    · rfl
  | halfOpened =>
    simp only [hear, add]
    split_ifs
    · rfl
    · simp [List.count_append, h.symm]
    · rfl
  | closed => rfl

/-- How often an address is in rotation after a transition of its breaker depends on how often it
was before, and on whether it is configured. -/
theorem count_hear_self (p : Pool) (a : String) (t : Transition) :
    (p.hear a t).pool.live.count a = match t with
      | .opened => p.live.count a - 1
      | .halfOpened => if a ∈ p.configured ∧ p.live.count a = 0 then 1 else p.live.count a
      | .closed => p.live.count a := by
  cases t with
  | opened =>
    simp only [hear, remove]
    split_ifs with ha
    · simp [count_swapRemove]
    · simp [List.count_eq_zero_of_not_mem ha]
  | halfOpened =>
    simp only [hear, add, List.count_eq_zero]
    by_cases hc : a ∈ p.configured
    · by_cases hl : a ∈ p.live
      · simp [hc, hl]
      · simp [hc, hl, List.count_eq_zero_of_not_mem hl]
    · simp [hc]
  | closed => rfl

end Count

/-- Pools with the same addresses, and the same of some in rotation. -/
structure Alike (own : String → Bool) (p p' : Pool) : Prop where
  configured : p.configured = p'.configured
  live : ∀ a, own a = true → p.live.count a = p'.live.count a

theorem Alike.refl (own : String → Bool) (p : Pool) : p.Alike own p := ⟨rfl, fun _ _ => rfl⟩

theorem Alike.symm (h : p.Alike own p') : p'.Alike own p :=
  ⟨h.configured.symm, fun a ha => (h.live a ha).symm⟩

theorem Alike.trans {p'' : Pool} (h : p.Alike own p') (h' : p'.Alike own p'') : p.Alike own p'' :=
  ⟨h.configured.trans h'.configured, fun a ha => (h.live a ha).trans (h'.live a ha)⟩

theorem Alike.mem_live (h : p.Alike own p') (ha : own a = true) : a ∈ p.live ↔ a ∈ p'.live := by
  rw [← List.count_pos_iff, ← List.count_pos_iff, h.live a ha]

theorem Alike.hear (h : p.Alike own p') (a : String) (t : Transition) :
    (p.hear a t).pool.Alike own (p'.hear a t).pool where
  configured := by rw [hear_configured, hear_configured, h.configured]
  live b hb := by
    by_cases hba : b = a
    · subst hba
      rw [count_hear_self, count_hear_self, h.configured, h.live b hb]
    · rw [count_hear_of_ne hba, count_hear_of_ne hba, h.live b hb]

theorem Alike.hear_left (h : p.Alike own p') (ha : own a = false) (t : Transition) :
    (p.hear a t).pool.Alike own p' where
  configured := (hear_configured ..).trans h.configured
  live b hb := by
    rw [count_hear_of_ne (ne_of_apply_ne own (by simp [ha, hb])), h.live b hb]

theorem Alike.refresh (h : p.Alike own p') : p.refresh.pool.Alike own p'.refresh.pool :=
  ⟨h.configured, fun _ _ => congrArg (List.count _) h.configured⟩

end Pool

namespace Registry

/-- What there is of some keys is the same in both. -/
structure Agree (own : String → Bool) (r r' : Registry) : Prop where
  config : r.config = r'.config
  observers : r.observers = r'.observers
  find : ∀ k, own k = true → r.find? k = r'.find? k
  notices : r.notices.filter (own ·.key) = r'.notices.filter (own ·.key)
  pool : Option.Rel (Pool.Alike own) r.pool r'.pool

variable {r r' : Registry}

theorem Agree.refl (own : String → Bool) (r : Registry) : r.Agree own r where
  config := rfl
  observers := rfl
  find _ _ := rfl
  notices := rfl
  pool := by
    cases r.pool with
    | none => exact .none
    | some p => exact .some (.refl own p)

theorem Agree.symm (h : r.Agree own r') : r'.Agree own r where
  config := h.config.symm
  observers := h.observers.symm
  find k hk := (h.find k hk).symm
  notices := h.notices.symm
  pool := by
    have hpool := h.pool
    revert hpool
    generalize r.pool = p
    generalize r'.pool = p'
    rintro (h | -)
    · exact .some h.symm
    · exact .none

theorem Agree.breaker (h : r.Agree own r') (hk : own k = true) : r.breaker k = r'.breaker k := by
  rw [Registry.breaker, Registry.breaker, h.find k hk]

section Steps

theorem ne_of_own (hk : own key = false) (h : own k = true) : k ≠ key :=
  ne_of_apply_ne own (by simp [h, hk])

theorem Agree.pools (h : r.Agree own r') : r.pool = none ∧ r'.pool = none
    ∨ ∃ p p', r.pool = some p ∧ r'.pool = some p' ∧ p.Alike own p' := by
  have hpool := h.pool
  rcases hp : r.pool with _ | p <;> rcases hp' : r'.pool with _ | p' <;> rw [hp, hp'] at hpool <;>
    cases hpool
  · exact .inl ⟨rfl, rfl⟩
  · rename_i hpp
    exact .inr ⟨p, p', rfl, rfl, hpp⟩

theorem Agree.trans {r'' : Registry} (h : r.Agree own r') (h' : r'.Agree own r'') :
    r.Agree own r'' where
  config := h.config.trans h'.config
  observers := h.observers.trans h'.observers
  find k hk := (h.find k hk).trans (h'.find k hk)
  notices := h.notices.trans h'.notices
  pool := by
    rcases h.pools with ⟨hp, hp'⟩ | ⟨p, p', hp, hp', hpp⟩ <;>
      rcases h'.pools with ⟨hq, hq'⟩ | ⟨q, q', hq, hq', hqq⟩ <;> rw [hp'] at hq <;> cases hq
    · rw [hp, hq']
      exact .none
    · rw [hp, hq']
      exact .some (hpp.trans hqq)

theorem Agree.poolTurn (h : r.Agree own r') {f f' : Pool → Pool.Turn}
    (hf : ∀ {p p'}, p.Alike own p' → (f p).pool.Alike own (f' p').pool) :
    (r.poolTurn f).registry.Agree own (r'.poolTurn f').registry := by
  rcases h.pools with ⟨hp, hp'⟩ | ⟨p, p', hp, hp', hpp⟩
  · simp only [Registry.poolTurn, hp, hp']
    exact h
  · simp only [Registry.poolTurn, hp, hp']
    exact { h with pool := .some (hf hpp) }

theorem Agree.poolTurn_left (h : r.Agree own r') {f : Pool → Pool.Turn}
    (hf : ∀ {p p'}, p.Alike own p' → (f p).pool.Alike own p') :
    (r.poolTurn f).registry.Agree own r' := by
  rcases h.pools with ⟨hp, -⟩ | ⟨p, p', hp, hp', hpp⟩
  · simp only [Registry.poolTurn, hp]
    exact h
  · simp only [Registry.poolTurn, hp]
    exact { h with pool := hp' ▸ .some (hf hpp) }

theorem Agree.hear (h : r.Agree own r') (now : Nat) (key : String) (t : Transition)
    (o : Observer × Nat) :
    (r.hear now key t o).registry.Agree own (r'.hear now key t o).registry := by
  rcases o with ⟨_ | _ | _, i⟩
  · exact h.poolTurn fun hpp => hpp.hear key t
  · refine { h with notices := ?_ }
    rw [Registry.hear, Registry.hear, List.filter_cons, List.filter_cons, h.notices]
  · exact h

theorem Agree.hear_left (h : r.Agree own r') (hk : own key = false) (o : Observer × Nat) :
    (r.hear now key t o).registry.Agree own r' := by
  rcases o with ⟨_ | _ | _, i⟩
  · exact h.poolTurn_left fun hpp => hpp.hear_left hk t
  · refine { h with notices := ?_ }
    rw [Registry.hear, List.filter_cons_of_neg (by simpa using hk), h.notices]
  · exact h

theorem Agree.hearAll (now : Nat) (key : String) (t : Transition) :
    ∀ (os : List (Observer × Nat)) {r r' : Registry}, r.Agree own r' →
      (hearAll now key t os r).registry.Agree own (hearAll now key t os r').registry
  | [], _, _, h => h
  | o :: os, _, _, h => Agree.hearAll now key t os (h.hear now key t o)

theorem Agree.hearAll_left (hk : own key = false) :
    ∀ (os : List (Observer × Nat)) {r r' : Registry}, r.Agree own r' →
      (Registry.hearAll now key t os r).registry.Agree own r'
  | [], _, _, h => h
  | o :: os, _, _, h => Agree.hearAll_left hk os (h.hear_left hk o)

theorem Agree.put (h : r.Agree own r') (key : String) (b : Breaker) :
    (r.put key b).Agree own (r'.put key b) :=
  { h with find := fun k hk => by rw [find?_put, find?_put, h.find k hk] }

theorem Agree.put_left (h : r.Agree own r') (hk : own key = false) (b : Breaker) :
    (r.put key b).Agree own r' := by
  refine { h with find := fun k hk' => ?_ }
  rw [find?_put, h.find k hk']
  simp [ne_of_own hk hk']

theorem Agree.carry (h : r.Agree own r') (now : Nat) (key : String) (st : Step) :
    (r.carry now key st).registry.Agree own (r'.carry now key st).registry := by
  have hput := h.put key st.breaker
  unfold Registry.carry announce
  -- observers hear of transitions only, and in the same order as both have the same
  cases st.change with
  | none => exact hput
  | some c =>
    cases ht : c.transition? with
    | none => simpa only [ht] using hput
    | some t =>
      simp only [ht, hput.observers]
      exact Agree.hearAll now key t _ hput

theorem Agree.carry_left (h : r.Agree own r') (hk : own key = false) :
    (r.carry now key st).registry.Agree own r' := by
  have hput := h.put_left hk st.breaker
  unfold Registry.carry announce
  cases st.change with
  | none => exact hput
  | some c =>
    cases ht : c.transition? with
    | none => simpa only [ht] using hput
    | some t =>
      simp only [ht]
      exact Agree.hearAll_left hk _ hput

theorem Agree.settle (h : r.Agree own r') (hk : own key = true) (now : Nat) (p : Permit)
    (succeeded : Bool) :
    (r.settle now key p succeeded).registry.Agree own (r'.settle now key p succeeded).registry := by
  rw [Registry.settle, Registry.settle, h.breaker hk, h.config]
  exact h.carry ..

theorem Agree.fire (h : r.Agree own r') (hk : own key = true) (now : Nat) (t : Timer) :
    (r.fire now key t).registry.Agree own (r'.fire now key t).registry := by
  rw [Registry.fire, Registry.fire, h.breaker hk]
  exact h.carry ..

theorem Agree.with_breakers (h : r.Agree own r') {bs bs' : List (String × Breaker)}
    (hfind : ∀ k, own k = true → ({ r with breakers := bs } : Registry).find? k
      = ({ r' with breakers := bs' } : Registry).find? k) :
    ({ r with breakers := bs } : Registry).Agree own { r' with breakers := bs' } :=
  { h with find := hfind }

theorem get_registry (r : Registry) (key : String) :
    ∃ breakers, (r.get key).registry = { r with breakers } := by
  obtain ⟨breakers, told, ht⟩ := r.get_turn key
  exact ⟨breakers, by rw [ht]⟩

theorem allow_registry (r : Registry) (key : String) :
    ∃ breakers, (r.allow key).1.registry = { r with breakers } := by
  obtain ⟨breakers, told, ht⟩ := r.allow_turn key
  exact ⟨breakers, by rw [ht]⟩

theorem Agree.get (h : r.Agree own r') (hk : own key = true) :
    (r.get key).registry.Agree own (r'.get key).registry := by
  obtain ⟨bs, hr⟩ := r.get_registry key
  obtain ⟨bs', hr'⟩ := r'.get_registry key
  rw [hr, hr']
  refine h.with_breakers fun k hk' => ?_
  rw [← hr, ← hr', find?_get, find?_get, h.find k hk', h.breaker hk]

theorem Agree.get_left (h : r.Agree own r') (hk : own key = false) :
    (r.get key).registry.Agree own r' := by
  obtain ⟨bs, hr⟩ := r.get_registry key
  rw [hr]
  refine h.with_breakers fun k hk' => ?_
  rw [← hr, find?_get, if_neg (ne_of_own hk hk'), h.find k hk']

theorem Agree.allow (h : r.Agree own r') (hk : own key = true) :
    (r.allow key).1.registry.Agree own (r'.allow key).1.registry
      ∧ (r.allow key).2 = (r'.allow key).2 := by
  refine ⟨?_, by rw [allow_answer, allow_answer, h.breaker hk]⟩
  obtain ⟨bs, hr⟩ := r.allow_registry key
  obtain ⟨bs', hr'⟩ := r'.allow_registry key
  rw [hr, hr']
  refine h.with_breakers fun k hk' => ?_
  rw [← hr, ← hr', find?_allow, find?_allow, h.find k hk', h.breaker hk]

theorem Agree.allow_left (h : r.Agree own r') (hk : own key = false) :
    (r.allow key).1.registry.Agree own r' := by
  obtain ⟨bs, hr⟩ := r.allow_registry key
  rw [hr]
  refine h.with_breakers fun k hk' => ?_
  rw [← hr, find?_allow, if_neg (ne_of_own hk hk'), h.find k hk']

end Steps

section Edits

theorem carry_alike (r r' : Registry) (now : Nat) (key : String) (st : Step)
    (own : String × Timer → Bool) :
    (Watch.edit (r.carry now key st)).Alike own (Watch.edit (r'.carry now key st)) :=
  .refl own _

/-- A step for another key leaves the timers of the others. -/
theorem carry_alike_left (own : String → Bool) (hk : own key = false) :
    (Watch.edit (r.carry now key st)).Alike (own ·.1) {} where
  strikes u hu := by
    have hne : key ≠ u.1 := (ne_of_own hk hu).symm
    simp only [Watch.edit, carry_stopped]
    split_ifs <;> simp [hne]
  enters := by
    rw [List.filter_nil, List.filter_eq_nil_iff]
    intro e he
    obtain ⟨u, hu, rfl⟩ := List.mem_map.1 he
    rw [carry_started, Option.mem_toList, Option.map_eq_some_iff] at hu
    obtain ⟨_, -, rfl⟩ := hu
    simp [hk]

end Edits

/-- Timers of some keys do the same to what agrees on them, and the timers of all other keys do
nothing to it. -/
theorem ring_separate (own : String → Bool) :
    Agenda.Separate Watch.ring (own ·.1) fun s s' => s.1.Agree own s'.1 where
  symm h := h.symm
  acts hu h := ⟨h.fire hu .., by
    simp only [Watch.ring, Registry.fire, h.breaker hu]
    exact carry_alike ..⟩
  spares hu h := ⟨h.carry_left hu, carry_alike_left own hu⟩

end Registry

end AuctionGate
