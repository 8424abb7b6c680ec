import AuctionGate.Proofs.Breaker.Bank

/-!
# Timers that are never late

On a clock every timer runs out at its own time, ahead of anything else that happens then. So the
breakers of a watch cannot be told from stamped ones, which have no timers: after every act both
give the same answer, are in the same states with the same failures, and observers have heard the
same at the same times (`views_eq`).

The two are compared by `Refines`. While time passes the timers of one key have run out and those
of another have not, so `Underway` asks only that both come to the same in the end.
-/

namespace AuctionGate.Watch

open Breaker

/-- A bank does the same as a watch of which no timer is late. -/
structure Refines (c : Config) (observers : List Observer) (w : Watch) (s : Bank) : Prop where
  config : w.registry.config = c
  observers : w.registry.observers = observers
  now : w.now = s.now
  calls : w.calls = s.calls
  mirrors : ∀ key, Mirrors c w.registry (timersOf key w.timers.entries) key (s.diaries key)
  ahead : ∀ e ∈ w.timers.entries, w.now < e.1
  known : ∀ f ∈ w.calls, w.registry.Knows f.key
  probes : ∀ key, probesOut key w.calls = (w.registry.breaker key).probing.toNat

variable {c : Config} {observers : List Observer} {w : Watch} {b : Bank} {r : Registry}
  {key id : String} {limit : Nat}

section Calls

theorem Refines.probing (h : Refines c observers w b) {f : InFlight} (hf : f ∈ w.calls)
    (hp : f.permit.probe = true) : (w.registry.breaker f.key).probing = true := by
  have hpos : 0 < probesOut f.key w.calls := List.countP_pos_iff.2 ⟨f, hf, by simp [hp]⟩
  rw [h.probes] at hpos
  cases hpr : (w.registry.breaker f.key).probing with
  | true => rfl
  | false => simp [hpr] at hpos

theorem Refines.halfOpen (h : Refines c observers w b) {f : InFlight} (hf : f ∈ w.calls)
    (hp : f.permit.probe = true) : (w.registry.breaker f.key).state = .halfOpen :=
  (h.mirrors f.key).tracks.sound.probing (h.probing hf hp)

/-- Between acts a bank has nothing to make up for. -/
theorem Refines.normalise_now (h : Refines c observers w b) : b.normalise c b.now = b := by
  have hd : (fun key => (b.diaries key).enter (Stamped.normalise c b.now)) = b.diaries := by
    funext key
    refine (h.mirrors key).normalise_ahead fun e he => ?_
    rw [← h.now]
    exact h.ahead _ (mem_timersOf.1 he)
  rw [Bank.normalise, hd]

/-- A call that comes back takes its mark with it, if it is the probe. -/
theorem Refines.probes_settle (h : Refines c observers w b) {p : InFlight → Bool} {f : InFlight}
    (hfind : w.calls.find? p = some f) (succeeded : Bool) (key : String) :
    probesOut key (w.calls.eraseP p)
      = ((w.registry.carry w.now f.key ((w.registry.breaker f.key).settle c f.permit
          succeeded)).registry.breaker key).probing.toNat := by
  have hf := List.mem_of_find?_eq_some hfind
  have hcount := probesOut_eraseP key hfind
  rw [h.probes] at hcount
  by_cases hk : key = f.key
  · subst hk
    rw [Registry.breaker_carry_self (h.known f hf), settle_probing]
    simp only [decide_true, Bool.true_and] at hcount
    cases hp : f.permit.probe with
    | false => simpa [hp] using hcount
    | true =>
      rw [hp, h.probing hf hp] at hcount
      simpa using hcount
  · rw [Registry.breaker_carry_of_ne hk, ← hcount]
    simp [Ne.symm hk]

theorem Refines.mirrors_settle (h : Refines c observers w b) {f : InFlight} (hf : f ∈ w.calls)
    (succeeded : Bool) (key : String) :
    let turn := w.registry.carry w.now f.key
      ((w.registry.breaker f.key).settle c f.permit succeeded)
    Mirrors c turn.registry (timersOf key (w.timers.edit (Watch.edit turn)).entries) key
      (Function.update b.diaries f.key
        ((b.diaries f.key).enter (Stamped.settle c w.now f.permit succeeded)) key) := by
  intro turn
  by_cases hk : key = f.key
  · subst hk
    have hag := (h.mirrors f.key).tracks.settle (h.halfOpen hf) w.now succeeded
    rw [timersOf_carry (settle_follows c f.permit succeeded _).started_eq_none,
      Function.update_self]
    exact (h.mirrors f.key).carry (h.known f hf) hag
  · rw [timersOf_carry_of_ne hk, Function.update_of_ne hk]
    exact (h.mirrors key).carry_of_ne hk

theorem Refines.finish (h : Refines c observers w b) (hc : c.fault? = none) (id : String)
    (succeeded : Bool) :
    Refines c observers ((w.finish? id succeeded).getD w) (b.finish c id succeeded) := by
  unfold Watch.finish? Bank.finish
  rw [← h.calls]
  cases hfind : w.calls.find? (·.id = id) with
  | none => exact h
  | some f =>
    have hf := List.mem_of_find?_eq_some hfind
    simp only [Option.map_some, Option.getD_some, Watch.settle, Watch.hold, Registry.settle,
      h.config, ← h.now]
    refine ⟨?_, ?_, rfl, rfl, h.mirrors_settle hf succeeded, settle_ahead hc w.timers h.ahead,
      fun g hg => ?_, h.probes_settle hfind succeeded⟩
    · rw [Registry.carry_config, h.config]
    · rw [Registry.carry_observers, h.observers]
    · rw [Registry.knows_carry]
      exact h.known g (List.mem_of_mem_eraseP hg)

theorem Refines.known_allow (h : Refines c observers w b) {f : InFlight} (hf : f ∈ w.calls)
    (key : String) : (w.registry.allow key).1.registry.Knows f.key :=
  Registry.knows_allow.2 (.inr (h.known f hf))

theorem Refines.veto (h : Refines c observers w b)
    (hb : (w.registry.breaker key).allow = none) : Refines c observers (w.allow key).1 b := by
  have hsame := Registry.breaker_allow_none hb
  unfold Watch.allow Watch.hold
  simp only [edit_allow]
  refine ⟨?_, ?_, h.now, h.calls, fun k => (h.mirrors k).allow_same (hsame k), h.ahead,
    fun f hf => h.known_allow hf key, fun k => ?_⟩
  · rw [Registry.allow_config, h.config]
  · rw [Registry.allow_observers, h.observers]
  · rw [h.probes, hsame]

theorem Refines.mirrors_allow (h : Refines c observers w b) {p : Permit} {br : Breaker}
    {q : Stamped} (hb : (w.registry.breaker key).allow = some (p, br))
    (hq : q.Tracks c br (timersOf key w.timers.entries)) (k : String) :
    Mirrors c (w.registry.allow key).1.registry (timersOf k w.timers.entries) k
      (Function.update b.diaries key ⟨q, (b.diaries key).heard⟩ k) := by
  by_cases hk : k = key
  · subst hk
    rw [Function.update_self]
    exact (h.mirrors k).allow (by rw [Registry.breaker_allow_self hb]; exact hq)
  · rw [Function.update_of_ne hk]
    exact (h.mirrors k).allow_same (Registry.breaker_allow_of_ne hk)

theorem Refines.probes_allow (h : Refines c observers w b) {p : Permit} {br : Breaker}
    (hb : (w.registry.breaker key).allow = some (p, br)) (k : String) :
    probesOut k (w.calls ++ [⟨id, key, p⟩])
      = ((w.registry.allow key).1.registry.breaker k).probing.toNat := by
  rw [probesOut_append, h.probes]
  by_cases hk : k = key
  · subst hk
    rw [Registry.breaker_allow_self hb]
    rcases allow_cases hb with ⟨-, rfl, rfl⟩ | ⟨-, hp, rfl, rfl⟩
    · simp
    · simp [hp]
  · rw [Registry.breaker_allow_of_ne hk]
    simp [Ne.symm hk]

theorem Refines.begin (h : Refines c observers w b) (key id : String) :
    Refines c observers (w.begin key id).1 (b.begin key id).1
      ∧ (w.allow key).2 = (b.begin key id).2 := by
  have hm := (h.mirrors key).tracks
  rcases hb : (w.registry.breaker key).allow with _ | ⟨p, br⟩
  · have hleave : (w.allow key).2 = none := by
      rw [Watch.allow, Registry.allow_of_none hb]
    rw [begin_of_none hleave, hleave]
    simp only [Bank.begin, hm.allow_none hb, and_true]
    exact h.veto hb
  · have hleave : (w.allow key).2 = some p := by
      rw [Watch.allow, Registry.allow_of_some hb]
    obtain ⟨q, hq, htracks⟩ := hm.allow_some hb
    rw [begin_of_some hleave, hleave]
    simp only [Bank.begin, hq, and_true, Watch.allow, Watch.hold, edit_allow]
    refine ⟨?_, ?_, h.now, ?_, h.mirrors_allow hb htracks, h.ahead, fun f hf => ?_,
      h.probes_allow hb⟩
    · rw [Registry.allow_config, h.config]
    · rw [Registry.allow_observers, h.observers]
    · rw [h.calls]
    · rcases List.mem_append.1 hf with hf | hf
      · exact h.known_allow hf key
      · rw [List.mem_singleton.1 hf]
        exact Registry.knows_allow.2 (.inl rfl)

end Calls

section Time

/-- While time passes up to `limit`, some timers have run out. What they did, the bank will have
made up for by then. -/
structure Underway (c : Config) (observers : List Observer) (w : Watch) (b : Bank) (limit : Nat)
    (a : Agenda (String × Timer)) (r : Registry) : Prop where
  config : r.config = c
  observers : r.observers = observers
  known : ∀ key, w.registry.Knows key → r.Knows key
  probing : ∀ key, (r.breaker key).probing = (w.registry.breaker key).probing
  mirrors : ∀ key, ∃ d, Mirrors c r (timersOf key a.entries) key d
    ∧ d.enter (Stamped.normalise c limit) = (b.diaries key).enter (Stamped.normalise c limit)

theorem Refines.underway (h : Refines c observers w b) (limit : Nat) :
    Underway c observers w b limit w.timers w.registry :=
  ⟨h.config, h.observers, fun _ hk => hk, fun _ => rfl, fun key => ⟨_, h.mirrors key, rfl⟩⟩

/-- The next timer does in time what the bank will make up for. -/
theorem Underway.fire {a a' : Agenda (String × Timer)} {due : Nat} {u : String × Timer}
    (h : Underway c observers w b limit a r) (hpop : a.pop? limit = some ((due, u), a')) :
    Underway c observers w b limit a' (r.fire due u.1 u.2).registry := by
  obtain ⟨key, t⟩ := u
  obtain ⟨hdue, before, after, ha, ha'⟩ := Agenda.pop?_eq_some hpop
  obtain ⟨d, hd, hsame⟩ := h.mirrors key
  rw [ha] at hd
  obtain ⟨ht, hdue', hnone⟩ := hd.timer
  have hknows : r.Knows key := Registry.knows_of_breaker_ne fun hnew => by
    rw [hnew] at ht
    cases ht
  have hag : Stamped.Agrees c due [] ((r.breaker key).fire t) (d.breaker.normalise c limit) := by
    subst hdue'
    exact hd.tracks.fire ht hdue
  have htimers : Stamped.timersAfter due [] ((r.breaker key).fire t) = [] := by
    rw [Stamped.timersAfter, fire_stops]
    rfl
  have hcarried := hd.carry hknows hag
  rw [htimers] at hcarried
  refine ⟨?_, ?_, fun k hk => Registry.knows_carry.2 (h.known k hk), fun k => ?_, fun k => ?_⟩
  · rw [Registry.fire, Registry.carry_config, h.config]
  · rw [Registry.fire, Registry.carry_observers, h.observers]
  · rw [← h.probing k, Registry.fire]
    by_cases hk : k = key
    · subst hk
      rw [Registry.breaker_carry_self hknows]
      exact fire_probing hd.tracks.sound t
    · rw [Registry.breaker_carry_of_ne hk]
  · rw [ha', Registry.fire]
    by_cases hk : k = key
    · subst hk
      refine ⟨_, by rw [hnone]; exact hcarried, ?_⟩
      rw [hcarried.normalise_ahead fun _ he => absurd he List.not_mem_nil, hsame]
    · obtain ⟨d', hd', hsame'⟩ := h.mirrors k
      rw [ha, timersOf_append, timersOf_cons_of_ne due t after hk, ← timersOf_append] at hd'
      exact ⟨d', hd'.carry_of_ne hk, hsame'⟩

theorem Refines.elapse (h : Refines c observers w b) (limit : Nat) :
    Refines c observers (w.elapse limit) (b.normalise c limit) := by
  let out := w.timers.run Watch.ring limit (w.registry, w.journal)
  have hout : Underway c observers w b limit out.1 out.2.1 := by
    refine Agenda.runSteps_keeps
      (P := fun a (s : Registry × Journal) => Underway c observers w b limit a s.1)
      (fun hu hpop => ?_) _ _ _ (h.underway limit)
    rw [edit_ring]
    exact hu.fire hpop
  have hahead : ∀ e ∈ out.1.entries, limit < e.1 := by
    refine Agenda.pop?_eq_none (Agenda.runSteps_done (fun hpop => ?_) _ _ _ (by omega))
    rw [edit_ring]
    exact Agenda.pop?_length hpop
  refine ⟨hout.config, hout.observers, rfl, h.calls, fun key => ?_, hahead,
    fun f hf => hout.known _ (h.known f hf), fun key => ?_⟩
  · obtain ⟨d, hd, hsame⟩ := hout.mirrors key
    show Mirrors c out.2.1 _ key ((b.diaries key).enter (Stamped.normalise c limit))
    rw [← hsame, hd.normalise_ahead fun e he => hahead _ (mem_timersOf.1 he)]
    exact hd
  · exact (h.probes key).trans (congrArg Bool.toNat (hout.probing key).symm)

end Time

section Views

/-- One act is answered alike and leaves both alike. -/
theorem Refines.act (h : Refines c observers w b) (hc : c.fault? = none) (a : Act) :
    Refines c observers (w.act a).1 (b.act c a).1 ∧ (w.act a).2 = (b.act c a).2 := by
  cases a with
  | begin key id =>
    simp only [Watch.act, Bank.act, h.normalise_now]
    exact h.begin key id
  | finish id succeeded =>
    simp only [Watch.act, Bank.act, h.normalise_now, and_true]
    exact h.finish hc id succeeded
  | drop id =>
    simp only [Watch.act, Bank.act, h.normalise_now, and_true]
    exact h.finish hc id false
  | advance ms =>
    simp only [Watch.act, Bank.act, Watch.advance, h.now, and_true]
    exact h.elapse _

theorem Refines.view (h : Refines c observers w b) {place : Nat}
    (ho : observers[place]? = some .recorder) (key : String) (leave : Option Permit) :
    w.view key place leave = b.view key leave := by
  have hm := h.mirrors key
  rw [Watch.view, Bank.view, hm.tracks.state, hm.tracks.failures,
    hm.heard place (by rw [h.observers]; exact ho)]

theorem Refines.views (hc : c.fault? = none) {place : Nat}
    (ho : observers[place]? = some .recorder) (key : String) :
    ∀ (as : List Act) (w : Watch) (b : Bank), Refines c observers w b →
      w.views key place as = b.views c key as
  | [], _, _, _ => rfl
  | a :: as, w, b, h => by
    obtain ⟨hnext, hleave⟩ := h.act hc a
    rw [Watch.views, Bank.views, Refines.views hc ho key as _ _ hnext, hnext.view ho, hleave]

theorem refines_new (c : Config) (observers : List Observer) (pool : Option Pool) :
    Refines c observers { registry := { config := c, observers, pool } } {} where
  config := rfl
  observers := rfl
  now := rfl
  calls := rfl
  mirrors key := mirrors_new c observers pool key
  ahead := nofun
  known := nofun
  probes _ := rfl

/-- With a valid configuration, breakers with timers and breakers without cannot be told apart by
what is done to them: every answer, state, count of failures and notice is the same, and so are the
times of the notices. -/
theorem views_eq (hc : c.fault? = none) (pool : Option Pool) {place : Nat}
    (ho : observers[place]? = some .recorder) (key : String) (as : List Act) :
    ({ registry := { config := c, observers, pool } } : Watch).views key place as
      = Bank.views c key {} as :=
  (refines_new c observers pool).views hc ho key as

/-- Two calls fail and open the breaker of a host, which is half open after the delay whenever
somebody looks, and its probe closes it. -/
theorem views_eq_cycle :
    Config.fault? ⟨2, 1000, 100⟩ = none ∧ [Observer.pool, .recorder][1]? = some .recorder
      ∧ ({ registry := { config := ⟨2, 1000, 100⟩, observers := [.pool, .recorder] } } :
          Watch).views "a" 1 [.begin "a" "x", .begin "a" "y", .finish "x" false, .drop "y",
            .begin "a" "z", .advance 250, .begin "a" "z", .finish "z" true]
        = [⟨some ⟨false⟩, .closed, 0, []⟩, ⟨some ⟨false⟩, .closed, 0, []⟩, ⟨none, .closed, 1, []⟩,
          ⟨none, .opened, 2, [(0, .opened)]⟩, ⟨none, .opened, 2, [(0, .opened)]⟩,
          ⟨none, .halfOpen, 2, [(100, .halfOpened), (0, .opened)]⟩,
          ⟨some ⟨true⟩, .halfOpen, 2, [(100, .halfOpened), (0, .opened)]⟩,
          ⟨none, .closed, 0, [(250, .closed), (100, .halfOpened), (0, .opened)]⟩] := by
  refine ⟨by decide, rfl, ?_⟩
  rw [views_eq (by decide) none rfl]
  decide

end Views

end AuctionGate.Watch
