import AuctionGate.Proofs.Dispatch.Visits

/-!
# Breakers and the leaves that are out

What visits leave of a registry does not depend on the leaves that are out (`Registry.through`),
and visits can be gone through in two parts (`Serves.split`).

A breaker takes its probe to be out exactly as long as the leave of one is out (`Matched`). So a
probe never comes back to a breaker that is closed or open, and the result of a call that comes
back to a closed breaker counts.
-/

namespace AuctionGate

open Breaker

def Visit.key : Visit → String
  | asked key _ => key
  | recorded x => x.leave.key
  | rang _ key _ => key

namespace Registry

/-- A registry after a visit. -/
def meet (r : Registry) : Visit → Registry
  | .asked key _ => (r.allow key).1.registry
  | .recorded x => (r.settle x.time x.leave.key x.leave.permit x.succeeded).registry
  | .rang time key t => (r.fire time key t).registry

def through (r : Registry) (vs : List Visit) : Registry := vs.foldl meet r

variable {r r' : Registry} {out out' : List Leave} {vs vs' : List Visit} {key k : String}
  {v : Visit}

theorem Serves.through_eq (h : Serves r out vs r' out') : r' = r.through vs := by
  induction h with
  | done => rfl
  | vetoed _ _ ih => exact ih
  | granted _ _ ih => exact ih
  | recorded _ _ ih => exact ih
  | rang _ ih => exact ih

theorem Serves.split (h : Serves r out (vs ++ vs') r' out') :
    ∃ out₁, Serves r out vs (r.through vs) out₁ ∧ Serves (r.through vs) out₁ vs' r' out' := by
  induction vs generalizing r out with
  | nil => exact ⟨out, .done (.refl _), h⟩
  | cons v vs ih =>
    cases h with
    | vetoed hv h =>
      obtain ⟨out₁, hfirst, hrest⟩ := ih h
      exact ⟨out₁, .vetoed hv hfirst, hrest⟩
    | granted hg h =>
      obtain ⟨out₁, hfirst, hrest⟩ := ih h
      exact ⟨out₁, .granted hg hfirst, hrest⟩
    | recorded hp h =>
      obtain ⟨out₁, hfirst, hrest⟩ := ih h
      exact ⟨out₁, .recorded hp hfirst, hrest⟩
    | rang h =>
      obtain ⟨out₁, hfirst, hrest⟩ := ih h
      exact ⟨out₁, .rang hfirst, hrest⟩

theorem meet_config (r : Registry) (v : Visit) : (r.meet v).config = r.config := by
  cases v with
  | asked key leave => exact allow_config r key
  | recorded x => exact carry_config ..
  | rang time key t => exact carry_config ..

theorem meet_of_ne (h : k ≠ v.key) : (r.meet v).breaker k = r.breaker k := by
  cases v with
  | asked key leave => exact breaker_allow_of_ne h
  | recorded x => exact breaker_carry_of_ne h
  | rang time key t => exact breaker_carry_of_ne h

/-- A breaker is as a step leaves it, or as it was. -/
theorem breaker_carry_of {P : Breaker → Prop} {now : Nat} {st : Step} (h : P (r.breaker k))
    (hstep : k = key → P st.breaker) : P ((r.carry now key st).registry.breaker k) := by
  by_cases hk : k = key
  · subst hk
    by_cases hknown : r.Knows k
    · rw [breaker_carry_self hknown]
      exact hstep rfl
    · rw [breaker, find?_eq_none (mt knows_carry.1 hknown), ← find?_eq_none hknown]
      exact h
  · rw [breaker_carry_of_ne hk]
    exact h

section Matched

/-- The leaves that are out fit the breakers, and as many of them are probes of a key as its breaker
takes to be out. -/
structure Matched (r : Registry) (out : List Leave) : Prop where
  known : ∀ l ∈ out, r.Knows l.key
  sound : ∀ key, Sound r.config (r.breaker key)
  probes : ∀ key, out.count ⟨key, ⟨true⟩⟩ = (r.breaker key).probing.toNat

theorem matched_new (c : Config) : Matched { config := c } [] where
  known _ hl := nomatch hl
  sound _ := sound_new c
  probes _ := rfl

theorem Matched.perm (h : r.Matched out) (hp : out.Perm out') : r.Matched out' where
  known l hl := h.known l (hp.mem_iff.2 hl)
  sound := h.sound
  probes key := (hp.count_eq _).symm.trans (h.probes key)

theorem Matched.vetoed (h : r.Matched out) (hv : (r.allow key).2 = none) :
    (r.allow key).1.registry.Matched out := by
  have hnone : (r.breaker key).allow = none := by
    rw [allow_answer] at hv
    exact Option.map_eq_none_iff.1 hv
  refine ⟨fun l hl => knows_allow.2 (.inr (h.known l hl)), fun k => ?_, fun k => ?_⟩
  · rw [allow_config, breaker_allow_none hnone]
    exact h.sound k
  · rw [breaker_allow_none hnone]
    exact h.probes k

theorem Matched.granted {p : Permit} (h : r.Matched out) (hg : (r.allow key).2 = some p) :
    (r.allow key).1.registry.Matched (⟨key, p⟩ :: out) := by
  rw [allow_answer, Option.map_eq_some_iff] at hg
  obtain ⟨⟨q, b⟩, hb, rfl⟩ := hg
  refine ⟨fun l hl => ?_, fun k => ?_, fun k => ?_⟩
  · rcases List.mem_cons.1 hl with rfl | hl
    · exact knows_allow.2 (.inl rfl)
    · exact knows_allow.2 (.inr (h.known l hl))
  · rw [allow_config]
    by_cases hk : k = key
    · subst hk
      rw [breaker_allow_self hb]
      exact allow_sound (h.sound k) hb
    · rw [breaker_allow_of_ne hk]
      exact h.sound k
  · have hprobes := h.probes k
    by_cases hk : k = key
    · subst hk
      rw [breaker_allow_self hb]
      rcases allow_cases hb with ⟨-, rfl, rfl⟩ | ⟨-, hidle, rfl, rfl⟩
      · simpa using hprobes
      · rw [hidle] at hprobes
        simp only [List.count_cons_self, hprobes]
        rfl
    · rw [breaker_allow_of_ne hk, List.count_cons_of_ne (by simp [Ne.symm hk])]
      exact hprobes

/-- The probe of a key comes back to a breaker that is half open and waits for it. -/
theorem Matched.probing {l : Leave} (h : r.Matched out) (hl : l ∈ out)
    (hp : l.permit.probe = true) : (r.breaker l.key).probing = true := by
  have hpos := List.count_pos_iff.2 (show (⟨l.key, ⟨true⟩⟩ : Leave) ∈ out by rwa [← hp])
  rw [h.probes] at hpos
  cases hb : (r.breaker l.key).probing with
  | true => rfl
  | false =>
    rw [hb] at hpos
    cases hpos

theorem Matched.settle {l : Leave} {succeeded : Bool} {now : Nat} (h : r.Matched (l :: out)) :
    (r.settle now l.key l.permit succeeded).registry.Matched out := by
  have hknown := h.known l List.mem_cons_self
  refine ⟨fun l' hl => knows_carry.2 (h.known l' (List.mem_cons_of_mem l hl)), fun k => ?_,
    fun k => ?_⟩
  · rw [Registry.settle, carry_config]
    by_cases hk : k = l.key
    · subst hk
      rw [breaker_carry_self hknown]
      exact settle_sound (h.sound l.key)
        fun hp => (h.sound l.key).probing (h.probing List.mem_cons_self hp)
    · rw [breaker_carry_of_ne hk]
      exact h.sound k
  · have hprobes := h.probes k
    by_cases hk : k = l.key
    · subst hk
      rw [Registry.settle, breaker_carry_self hknown, settle_probing]
      rw [List.count_cons] at hprobes
      rcases l with ⟨key, ⟨_ | _⟩⟩
      · simpa using hprobes
      · rw [h.probing List.mem_cons_self rfl] at hprobes
        simpa using hprobes
    · rw [Registry.settle, breaker_carry_of_ne hk]
      rwa [List.count_cons_of_ne fun hl => hk (by rw [hl])] at hprobes

theorem Matched.fire (h : r.Matched out) (now : Nat) (key : String) (t : Timer) :
    (r.fire now key t).registry.Matched out := by
  refine ⟨fun l hl => knows_carry.2 (h.known l hl), fun k => ?_, fun k => ?_⟩
  · rw [Registry.fire, carry_config]
    exact breaker_carry_of (h.sound k) fun hk => fire_sound (hk ▸ h.sound k) t
  · refine breaker_carry_of (P := fun b => out.count ⟨k, ⟨true⟩⟩ = b.probing.toNat) (h.probes k)
      fun hk => ?_
    rw [fire_probing (h.sound key), h.probes k, hk]

theorem Serves.matched (hs : Serves r out vs r' out') (h : r.Matched out) : r'.Matched out' := by
  induction hs with
  | done hp => exact h.perm hp
  | vetoed hv _ ih => exact ih (h.vetoed hv)
  | granted hg _ ih => exact ih (h.granted hg)
  | recorded hout _ ih => exact ih (h.perm hout).settle
  | rang _ ih => exact ih (h.fire _ _ _)

end Matched

end Registry

end AuctionGate
