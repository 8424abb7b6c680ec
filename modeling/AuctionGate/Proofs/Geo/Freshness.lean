import AuctionGate.Proofs.Breaker.Bank
import AuctionGate.Proofs.Breaker.Told
import AuctionGate.Proofs.Pool.Following

/-!
# Freshness by the journal

The journal of a watch shows whether the pool was refreshed since the breaker of an address opened
last. A step of a breaker notes an opening exactly if its breaker opens, and only a refresh notes a
refresh, so what the journal shows is what decides whether the address of an open breaker is in
rotation. That stays so whatever is done with the watch (`Steady`).
-/

namespace AuctionGate

open Breaker

/-- There was a refresh after the latest opening of the breaker of an address. -/
def Journal.RefreshedSince (j : Journal) (a : String) : Prop :=
  ∃ o ∈ j.takeWhile fun o => !o.opens a, o.refreshes = true

instance (j : Journal) (a : String) : Decidable (j.RefreshedSince a) :=
  inferInstanceAs (Decidable (∃ o ∈ j.takeWhile fun o => !o.opens a, o.refreshes = true))

variable {a key k : String} {j : Journal} {r : Registry} {st : Step} {now : Nat} {t : Transition}
  {o : Occurrence} {os : List Occurrence}

theorem Journal.refreshedSince_cons :
    Journal.RefreshedSince (o :: j) a
      ↔ o.opens a = false ∧ (o.refreshes = true ∨ j.RefreshedSince a) := by
  cases h : o.opens a <;> simp [RefreshedSince, h]

/-- There was no refresh. -/
def Journal.Unrefreshed (j : Journal) : Prop := ∀ o ∈ j, o.refreshes = false

theorem Journal.Unrefreshed.note (h : j.Unrefreshed) (hos : ∀ o ∈ os, o.refreshes = false) :
    (j.note os).Unrefreshed := by
  intro o ho
  rcases List.mem_append.1 ho with ho | ho
  · exact hos o (List.mem_reverse.1 ho)
  · exact h o ho

theorem Journal.Unrefreshed.not_refreshedSince (h : j.Unrefreshed) : ¬ j.RefreshedSince a := by
  rintro ⟨o, ho, href⟩
  rw [h o ((List.takeWhile_prefix _).subset ho)] at href
  cases href

/-- What is no refresh can only end freshness, by an opening. -/
theorem Journal.refreshedSince_note (h : ∀ o ∈ os, o.refreshes = false) :
    (j.note os).RefreshedSince a ↔ (∀ o ∈ os, o.opens a = false) ∧ j.RefreshedSince a := by
  induction os generalizing j with
  | nil => simp [note]
  | cons o os ih =>
    have hstep : j.note (o :: os) = Journal.note (o :: j) os := by simp [note]
    rw [hstep, ih fun o ho => h o (List.mem_cons_of_mem _ ho), refreshedSince_cons,
      h o List.mem_cons_self, List.forall_mem_cons]
    simp only [Bool.false_eq_true, false_or]
    tauto

namespace Registry

/-- An open breaker is fresh after a step if it was open already, and fresh. -/
theorem refreshedSince_carry (hk : r.Knows key) (ht : st.Tells (r.breaker key))
    (ho : ((r.carry now key st).registry.breaker a).state = .opened) :
    (j.note (r.carry now key st).told).RefreshedSince a
      ↔ (r.breaker a).state = .opened ∧ j.RefreshedSince a := by
  rw [Journal.refreshedSince_note carry_refreshes, carry_opens]
  refine and_congr_left fun _ => ?_
  by_cases ha : a = key
  · subst ha
    rw [breaker_carry_self hk] at ho
    unfold Step.Tells at ht
    cases hc : st.change.bind Change.transition? with
    | none =>
      rw [hc] at ht
      exact iff_of_true (by simp) (ht ▸ ho)
    | some t =>
      rw [hc] at ht
      cases t with
      | opened => exact iff_of_false (by simp) ht.1
      | halfOpened =>
        rw [ht.2] at ho
        cases ho
      | closed =>
        rw [ht.2] at ho
        cases ho
  · rw [breaker_carry_of_ne ha] at ho
    exact iff_of_true (fun h => ha h.1) ho

end Registry

theorem Journal.refreshedSince_still (h : ∀ o ∈ os, o.Still) :
    (j.note os).RefreshedSince a ↔ j.RefreshedSince a := by
  rw [refreshedSince_note fun o ho => (h o ho).1]
  exact and_iff_right fun o ho => (h o ho).2 a

/-- The pool has in rotation, of the configured addresses whose breakers are open, those for which
the journal shows a refresh since. Every timer is that of a breaker, and every breaker whose probe
is out is one of those given. -/
structure Steady (configured : List String) (probes : String → Prop) (r : Registry) (j : Journal)
    (timers : Agenda (String × Timer)) : Prop where
  follows : ∃ p, p.configured = configured ∧ r.Follows j.RefreshedSince p
  timers : ∀ w ∈ timers.entries, r.Knows w.2.1
  probing : ∀ key, (r.breaker key).probing = true → probes key

namespace Steady

variable {configured : List String} {probes probes' : String → Prop} {w : Watch}
  {timers timers' : Agenda (String × Timer)}

theorem carry (h : Steady configured probes r j timers) (hk : r.Knows key)
    (ht : st.Tells (r.breaker key))
    (hp : st.breaker.probing = true → probes' key)
    (hp' : ∀ k, k ≠ key → probes k → probes' k) (now : Nat) :
    Steady configured probes' (r.carry now key st).registry (j.note (r.carry now key st).told)
      (timers.edit (Watch.edit (r.carry now key st))) where
  follows := by
    obtain ⟨p, hc, hf⟩ := h.follows
    obtain ⟨p', hc', hf'⟩ := hf.carry hk ht now
    exact ⟨p', hc'.trans hc, hf'.congr fun a ho => (Registry.refreshedSince_carry hk ht ho).symm⟩
  timers w hw := by
    rw [Registry.knows_carry]
    rcases List.mem_append.1 hw with hw | hw
    · exact h.timers w (List.mem_of_mem_filter hw)
    · -- what is started is a timer of the breaker itself
      obtain ⟨u, hu, rfl⟩ := List.mem_map.1 hw
      rw [Option.mem_toList, Registry.carry_started] at hu
      obtain ⟨x, -, rfl⟩ := Option.map_eq_some_iff.1 hu
      exact hk
  probing k hpr := by
    by_cases hkey : k = key
    · subst hkey
      rw [Registry.breaker_carry_self hk] at hpr
      exact hp hpr
    · rw [Registry.breaker_carry_of_ne hkey] at hpr
      exact hp' k hkey (h.probing k hpr)

theorem fire (h : Steady configured probes r j timers) (hk : r.Knows key) (now : Nat) (t : Timer) :
    Steady configured probes (r.fire now key t).registry (j.note (r.fire now key t).told)
      (timers.edit (Watch.edit (r.fire now key t))) :=
  h.carry hk (fire_tells _ t) (fun hp => h.probing key (probing_of_fire hp)) (fun _ _ => id) now

theorem elapse (h : Steady configured probes w.registry w.journal w.timers) (limit : Nat) :
    Steady configured probes (w.elapse limit).registry (w.elapse limit).journal
      (w.elapse limit).timers := by
  refine Agenda.runSteps_keeps
    (P := fun a (s : Registry × Journal) => Steady configured probes s.1 s.2 a)
    (fun {a a' due x s} hs hpop => ?_) _ _ _ h
  obtain ⟨-, before, after, ha, ha'⟩ := Agenda.pop?_eq_some hpop
  have hrest : Steady configured probes s.1 s.2 a' := by
    refine ⟨hs.follows, fun u hu => hs.timers u ?_, hs.probing⟩
    rw [ha]
    rw [ha'] at hu
    rcases List.mem_append.1 hu with hu | hu
    · exact List.mem_append_left _ hu
    · exact List.mem_append_right _ (List.mem_cons_of_mem _ hu)
  exact hrest.fire (hs.timers (due, x) (by rw [ha]; simp)) due x.2

theorem unrefreshed_elapse (limit : Nat) (h : w.journal.Unrefreshed) :
    (w.elapse limit).journal.Unrefreshed :=
  Agenda.runSteps_keeps (P := fun _ (s : Registry × Journal) => s.2.Unrefreshed)
    (fun hs _ => hs.note Registry.carry_refreshes) _ _ _ h

theorem known_elapse (limit : Nat) (h : w.registry.Knows key) :
    (w.elapse limit).registry.Knows key :=
  Agenda.runSteps_keeps (P := fun _ (s : Registry × Journal) => s.1.Knows key)
    (fun hs _ => Registry.knows_carry.2 hs) _ _ _ h

/-- A call is vetoed or let through, and the probe may be among those let through. -/
theorem allow (h : Steady configured probes w.registry w.journal w.timers) (key : String) :
    Steady configured
      (fun k => probes k ∨ k = key ∧ ∃ p : Permit, (w.allow key).2 = some p ∧ p.probe = true)
      (w.allow key).1.registry (w.allow key).1.journal (w.allow key).1.timers := by
  have htimers : (w.allow key).1.timers = w.timers := edit_allow w.timers w.registry key
  refine ⟨?_, fun u hu => ?_, fun k hp => ?_⟩
  · obtain ⟨p, hc, hf⟩ := h.follows
    obtain ⟨breakers, told, hturn⟩ := w.registry.allow_turn key
    refine ⟨p, hc, (hf.still (by rw [hturn]) (by rw [hturn])
      (w.registry.state_allow key)).congr fun a ho => ?_⟩
    rw [w.registry.state_allow] at ho
    refine (and_iff_right ho).trans (Journal.refreshedSince_still ?_).symm
    exact w.registry.allow_told key
  · rw [htimers] at hu
    exact Registry.knows_allow.2 (.inr (h.timers u hu))
  · have hp' : ((w.registry.allow key).1.registry.breaker k).probing = true := hp
    by_cases hk : k = key
    · subst hk
      rcases hall : (w.registry.breaker k).allow with _ | ⟨p, b⟩
      · rw [Registry.breaker_allow_none hall] at hp'
        exact .inl (h.probing k hp')
      · rw [Registry.breaker_allow_self hall] at hp'
        have hleave : (w.allow k).2 = some p := by rw [Watch.allow, Registry.allow_of_some hall]
        rcases allow_cases hall with ⟨-, -, rfl⟩ | ⟨-, -, rfl, -⟩
        · exact .inl (h.probing k hp')
        · exact .inr ⟨rfl, _, hleave, rfl⟩
    · rw [Registry.breaker_allow_of_ne hk] at hp'
      exact .inl (h.probing k hp')

theorem settle (h : Steady configured probes w.registry w.journal w.timers)
    (hk : w.registry.Knows key) (p : Permit) (succeeded : Bool) :
    Steady configured (fun k => probes k ∧ ¬ (k = key ∧ p.probe = true))
      (w.settle key p succeeded).registry (w.settle key p succeeded).journal
      (w.settle key p succeeded).timers := by
  refine h.carry hk (settle_tells _ p succeeded _) (fun hp => ?_) (fun k hne hpr => ?_) w.now
  · rw [settle_probing, Bool.and_eq_true, Bool.not_eq_true'] at hp
    exact ⟨h.probing key hp.1, fun h' => by simp [hp.2] at h'⟩
  · exact ⟨hpr, fun h' => hne h'.1⟩

theorem refresh (h : Steady configured probes w.registry w.journal w.timers) :
    Steady configured probes (w.poolTurn Pool.refresh).registry (w.poolTurn Pool.refresh).journal
      (w.poolTurn Pool.refresh).timers := by
  obtain ⟨p, hc, hf⟩ := h.follows
  have hturn : w.registry.poolTurn Pool.refresh
      = { registry := { w.registry with pool := some p.refresh.pool }
          told := p.refresh.told } := by
    simp only [Registry.poolTurn, hf.pool]
  have htimers : (w.poolTurn Pool.refresh).timers = w.timers :=
    edit_idle w.timers (by rw [hturn]) (by rw [hturn])
  refine ⟨⟨p.refresh.pool, hc, hf.refresh.congr fun a _ => iff_of_true trivial ?_⟩, fun u hu => ?_,
    fun k hp => ?_⟩
  · show (w.journal.note (w.registry.poolTurn Pool.refresh).told).RefreshedSince a
    rw [hturn]
    exact Journal.refreshedSince_cons.2 ⟨rfl, .inl rfl⟩
  · rw [htimers] at hu
    show (w.registry.poolTurn Pool.refresh).registry.Knows u.2.1
    rw [hturn]
    exact h.timers u hu
  · refine h.probing k ?_
    rw [show (w.poolTurn Pool.refresh).registry = (w.registry.poolTurn Pool.refresh).registry
      from rfl, hturn] at hp
    exact hp

theorem known_refresh (h : w.registry.Knows key) :
    (w.poolTurn Pool.refresh).registry.Knows key := by
  obtain ⟨p, hp⟩ := w.registry.poolTurn_registry Pool.refresh
  show (w.registry.poolTurn Pool.refresh).registry.Knows key
  rw [hp]
  exact h

theorem note (h : Steady configured probes r j timers) (hos : ∀ o ∈ os, o.Still) :
    Steady configured probes r (j.note os) timers := by
  obtain ⟨p, hc, hf⟩ := h.follows
  exact ⟨⟨p, hc, hf.congr fun _ _ => (Journal.refreshedSince_still hos).symm⟩, h.timers, h.probing⟩

theorem mono (h : Steady configured probes r j timers) (hp : ∀ k, probes k → probes' k) :
    Steady configured probes' r j timers :=
  ⟨h.follows, h.timers, fun k hpr => hp k (h.probing k hpr)⟩

end Steady

end AuctionGate
