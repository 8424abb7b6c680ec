import AuctionGate.Proofs.Breaker.Registry
import AuctionGate.Proofs.Breaker.Steps
import AuctionGate.Proofs.Dispatch.Traffic

/-!
# What happens at the breakers of a dispatcher

A dispatcher asks its breakers for leave, records results and brings timers back. `Serves` says of
a list of such visits that a registry goes through them one after the other, that every call is
answered as its breaker answers, and that every result is that of a leave which is out at that
time. A breaker whose probe is out has its leave out (`Serves.probes`).

The visits of a dispatcher are those of the calls it issues, in their turns, those of the work that
falls due, and those of the calls it cancels.
-/

namespace AuctionGate

open Breaker

/-- A result that a breaker is told. -/
structure Record where
  time : Nat
  leave : Leave
  succeeded : Bool
  deriving DecidableEq

inductive Visit where
  | asked (key : String) (leave : Option Permit)
  | recorded (x : Record)
  | rang (time : Nat) (key : String) (t : Timer)

def Visit.record? : Visit → Option Record
  | recorded x => some x
  | _ => none

/-- What is recorded in the course of visits. -/
def records (vs : List Visit) : List Record := vs.filterMap Visit.record?

@[simp] theorem records_append (vs vs' : List Visit) :
    records (vs ++ vs') = records vs ++ records vs' :=
  List.filterMap_append

namespace Registry

/-- A registry goes through visits, with the leaves that are out before and after. -/
inductive Serves : Registry → List Leave → List Visit → Registry → List Leave → Prop
  | done {r : Registry} {out out' : List Leave} : out.Perm out' → Serves r out [] r out'
  | vetoed {r r' : Registry} {out out' : List Leave} {vs : List Visit} {key : String} :
    (r.allow key).2 = none → Serves (r.allow key).1.registry out vs r' out' →
    Serves r out (.asked key none :: vs) r' out'
  | granted {r r' : Registry} {out out' : List Leave} {vs : List Visit} {key : String}
      {p : Permit} :
    (r.allow key).2 = some p → Serves (r.allow key).1.registry (⟨key, p⟩ :: out) vs r' out' →
    Serves r out (.asked key (some p) :: vs) r' out'
  | recorded {r r' : Registry} {out rest out' : List Leave} {vs : List Visit} {x : Record} :
    out.Perm (x.leave :: rest) →
    Serves (r.settle x.time x.leave.key x.leave.permit x.succeeded).registry rest vs r' out' →
    Serves r out (.recorded x :: vs) r' out'
  | rang {r r' : Registry} {out out' : List Leave} {vs : List Visit} {time : Nat}
      {key : String} {t : Timer} :
    Serves (r.fire time key t).registry out vs r' out' →
    Serves r out (.rang time key t :: vs) r' out'

/-- Every breaker whose probe is out has its leave among those given. -/
def Probes (r : Registry) (out : List Leave) : Prop :=
  ∀ key, (r.breaker key).probing = true → ⟨key, ⟨true⟩⟩ ∈ out

variable {r r' r'' : Registry} {out out₁ out' out'' : List Leave} {vs vs' : List Visit}
  {key k : String} {p : Permit} {now : Nat}

theorem Serves.perm (h : Serves r out vs r' out') (hp : out₁.Perm out) :
    Serves r out₁ vs r' out' := by
  induction h generalizing out₁ with
  | done h => exact .done (hp.trans h)
  | vetoed hv _ ih => exact .vetoed hv (ih hp)
  | granted hg _ ih => exact .granted hg (ih (hp.cons _))
  | recorded h hs _ => exact .recorded (hp.trans h) hs
  | rang _ ih => exact .rang (ih hp)

theorem Serves.append (h : Serves r out vs r' out') (h' : Serves r' out' vs' r'' out'') :
    Serves r out (vs ++ vs') r'' out'' := by
  induction h with
  | done hp => exact h'.perm hp
  | vetoed hv _ ih => exact .vetoed hv (ih h')
  | granted hg _ ih => exact .granted hg (ih h')
  | recorded hp _ ih => exact .recorded hp (ih h')
  | rang _ ih => exact .rang (ih h')

section Probes

theorem probing_carry {s : Step} (h : ((r.carry now key s).registry.breaker k).probing = true) :
    k = key ∧ s.breaker.probing = true ∨ k ≠ key ∧ (r.breaker k).probing = true := by
  by_cases hk : k = key
  · subst hk
    have hknown : (r.carry now k s).registry.Knows k :=
      knows_of_breaker_ne fun h0 => by simp [h0] at h
    rw [breaker_carry_self (knows_carry.1 hknown)] at h
    exact .inl ⟨rfl, h⟩
  · rw [breaker_carry_of_ne hk] at h
    exact .inr ⟨hk, h⟩

theorem Probes.vetoed (h : r.Probes out) (hv : (r.allow key).2 = none) :
    (r.allow key).1.registry.Probes out := by
  intro k hp
  rcases hb : (r.breaker key).allow with _ | ⟨p, b⟩
  · rw [breaker_allow_none hb] at hp
    exact h k hp
  · rw [allow_of_some hb] at hv
    cases hv

theorem Probes.granted (h : r.Probes out) (hg : (r.allow key).2 = some p) :
    (r.allow key).1.registry.Probes (⟨key, p⟩ :: out) := by
  intro k hp
  rcases hb : (r.breaker key).allow with _ | ⟨q, b⟩
  · rw [allow_of_none hb] at hg
    cases hg
  · have hq : q = p := by
      rw [allow_of_some hb] at hg
      exact Option.some.inj hg
    by_cases hk : k = key
    · subst hk
      rw [breaker_allow_self hb] at hp
      rcases allow_cases hb with ⟨-, -, rfl⟩ | ⟨-, -, rfl, -⟩
      · exact List.mem_cons_of_mem _ (h k hp)
      · rw [← hq]
        exact List.mem_cons_self
    · rw [breaker_allow_of_ne hk] at hp
      exact List.mem_cons_of_mem _ (h k hp)

theorem Probes.settle {l : Leave} {succeeded : Bool} {rest : List Leave} (h : r.Probes out)
    (hout : out.Perm (l :: rest)) :
    (r.settle now l.key l.permit succeeded).registry.Probes rest := by
  intro k hp
  have hcases : (r.breaker k).probing = true ∧ ¬ (l = ⟨k, ⟨true⟩⟩) := by
    rcases probing_carry hp with ⟨rfl, hstep⟩ | ⟨hk, hstill⟩
    · rw [settle_probing, Bool.and_eq_true, Bool.not_eq_true'] at hstep
      refine ⟨hstep.1, fun hl => ?_⟩
      rw [hl] at hstep
      cases hstep.2
    · exact ⟨hstill, fun hl => hk (by rw [hl])⟩
  rcases List.mem_cons.1 (hout.mem_iff.1 (h k hcases.1)) with hl | hl
  · exact absurd hl.symm hcases.2
  · exact hl

theorem Probes.fire (h : r.Probes out) (now : Nat) (key : String) (t : Timer) :
    (r.fire now key t).registry.Probes out := by
  intro k hp
  rcases probing_carry hp with ⟨rfl, hstep⟩ | ⟨-, hstill⟩
  · exact h k (probing_of_fire hstep)
  · exact h k hstill

theorem Serves.probes (hs : Serves r out vs r' out') (h : r.Probes out) : r'.Probes out' := by
  induction hs with
  | done hp => exact fun key hpr => hp.mem_iff.1 (h key hpr)
  | vetoed hv _ ih => exact ih (h.vetoed hv)
  | granted hg _ ih => exact ih (h.granted hg)
  | recorded hout _ ih => exact ih (h.settle hout)
  | rang _ ih => exact ih (h.fire _ _ _)

/-- Without leaves out, a breaker that is half open lets the next call through, as its probe. -/
theorem Probes.admits (h : r.Probes []) (hst : (r.breaker key).state = .halfOpen) :
    (r.allow key).2 = some ⟨true⟩ := by
  have hidle : (r.breaker key).probing = false := by
    rw [← Bool.not_eq_true]
    exact fun hp => List.not_mem_nil (h key hp)
  have hallow : (r.breaker key).allow = some (⟨true⟩, { r.breaker key with probing := true }) := by
    rw [allow_halfOpen hst, hidle]
    rfl
  rw [allow_of_some hallow]

end Probes

end Registry

end AuctionGate
