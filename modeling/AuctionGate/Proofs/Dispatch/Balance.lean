import AuctionGate.Proofs.Dispatch.Accounts

/-!
# Every call is settled once

Whatever is done with a dispatcher, what its calls owe their breakers has been recorded or is
outstanding: it is entered in the agenda, or owed by a call that will be cancelled
(`Traffic.Balanced`). An entry in the agenda belongs to a flight under way, since all that is due
is done as time passes. So when nothing is under way every call that was let through has been
recorded once, and every breaker that is half open lets the next call through (`run_settles`).
-/

namespace AuctionGate

open Breaker

namespace Sortie

/-- What the calls of an errand owe their breakers. -/
def records (s : Sortie) : List Record :=
  s.turns.filterMap fun x => x.1.record? s.errand.deadline s.flight.finish x.2

def visits (s : Sortie) : List Visit :=
  s.turns.flatMap fun x => x.1.callVisits s.errand.deadline x.2

end Sortie

theorem flatMap_filter {α β : Type} {p : α → Bool} {f : α → List β} : ∀ {l : List α},
    (∀ x ∈ l, p x = false → f x = []) → (l.filter p).flatMap f = l.flatMap f
  | [], _ => rfl
  | x :: l, h => by
    have ih := flatMap_filter fun y hy => h y (List.mem_cons_of_mem x hy)
    rw [List.filter_cons, List.flatMap_cons]
    cases hx : p x with
    | true => rw [if_pos rfl, List.flatMap_cons, ih]
    | false => rw [if_neg Bool.false_ne_true, ih, h x List.mem_cons_self hx, List.nil_append]

namespace Dispatcher

variable {d : Dispatcher} {r : Registry} {limit : Nat} {before rest : List Record}

section Launch

theorem launchAll_accounts : ∀ (es : List Errand) {d : Dispatcher} {r : Registry}
    (before : List Record), d.guard = some r → ∃ r', (d.launchAll es).1.guard = some r'
      ∧ r.Accounts before ((d.sorties es).flatMap (·.records)) ((d.sorties es).flatMap (·.visits))
        r' ((d.sorties es).flatMap (fun s => s.flight.airborne.flatMap
          (·.promised s.flight.finish)) ++ before)
  | [], _, r, before, hg => ⟨r, hg, .refl r before⟩
  | e :: es, d, r, before, hg => by
    obtain ⟨r₁, hg₁, hfirst⟩ := issueAll_accounts e.deadline (d.launch e).2.finish
      (e.adapter.build e.auction).1 0 before hg (d.launch_finish e).1
    obtain ⟨r₂, hg₂, hrest⟩ := launchAll_accounts es _ hg₁
    refine ⟨r₂, hg₂, (hfirst.trans hrest).perm (.refl _) (.refl _) ?_⟩
    rw [← List.append_assoc]
    exact List.perm_append_comm.append_right before

end Launch

section Time

/-- What is done at the breakers of a dispatcher as time passes. -/
def elapseVisits (d : Dispatcher) (limit : Nat) : List Visit :=
  (Agenda.trail work limit (2 * d.agenda.entries.length) d.agenda (d.guard, d.journal)).map
    fun x => x.2.visit x.1

theorem promises_pop {a a' : Agenda Job} {due : Nat} {j : Job}
    (h : a.pop? limit = some ((due, j), a')) :
    (promises a.entries).Perm ((j.record? due).toList ++ promises a'.entries) := by
  obtain ⟨-, before, after, ha, ha'⟩ := Agenda.pop?_eq_some h
  have hperm : a.entries.Perm ((due, j) :: a'.entries) := by
    rw [ha, ha']
    exact List.perm_middle
  refine (hperm.filterMap _).trans (.of_eq ?_)
  rw [List.filterMap_eq_flatMap_toList, promises, List.filterMap_eq_flatMap_toList]
  rfl

theorem elapse_accounts (hg : d.guard = some r) (limit : Nat) (rest : List Record) :
    ∃ r', (d.elapse limit).guard = some r'
      ∧ r.Accounts (promises d.agenda.entries ++ rest) [] (d.elapseVisits limit) r'
        (promises (d.elapse limit).agenda.entries ++ rest) := by
  refine Agenda.runSteps_trail work limit
    (Q := fun a s l b t => ∀ r, s.1 = some r → ∃ r', t.1 = some r'
      ∧ r.Accounts (promises a.entries ++ rest) [] (l.map fun x => x.2.visit x.1) r'
        (promises b.entries ++ rest))
    (fun a s r hs => ⟨r, hs, .refl r _⟩) (fun {a a' due j s l b t} hpop ih r hs => ?_) _ _ _ r hg
  have hpromised := (promises_pop hpop).append_right rest
  -- A timer records nothing. The end of a call records what its entry promised.
  cases j with
  | timer key u =>
    simp only [work, hs, promises_edit] at ih
    obtain ⟨r', hr', hrest⟩ := ih _ rfl
    exact ⟨r', hr', (Registry.Accounts.mk (.rang hrest.serves) hrest.balance).perm hpromised
      (.refl _) (.refl _)⟩
  | giveBack leave succeeded =>
    simp only [work, hs, promises_edit] at ih
    obtain ⟨r', hr', hrest⟩ := ih _ rfl
    exact ⟨r', hr', ((Registry.Accounts.record r _ _).trans hrest).perm hpromised
      (.refl _) (.refl _)⟩

theorem mem_of_elapse (hg : d.guard = some r) {x : Record}
    (hx : x ∈ promises (d.elapse limit).agenda.entries) : x ∈ promises d.agenda.entries := by
  obtain ⟨r', -, h⟩ := elapse_accounts hg limit []
  have hmem := h.balance.mem_iff (a := x)
  simp only [List.nil_append, List.append_nil, List.mem_append] at hmem
  exact hmem.2 (.inr hx)

/-- A timer that runs out starts none and stops none. -/
theorem edit_fire (g : Registry) (due : Nat) (key : String) (u : Timer) (a : Agenda Job) :
    a.edit (edit (g.fire due key u)) = a := by
  have hstopped : (g.fire due key u).stopped = none := by
    rw [Registry.fire, Registry.carry_stopped, fire_stops, if_neg Bool.false_ne_true]
  have hstarted : (g.fire due key u).started = none := by
    rw [Registry.fire, Registry.carry_started, (fire_follows _ u).started_eq_none (fire_stops _ u)]
    rfl
  rw [Agenda.edit_of_strikes_none fun x => by simp [edit, hstopped]]
  simp [edit, hstarted]

/-- How many jobs those of an agenda can lead to: a call that ends starts at most one timer. -/
def load (a : Agenda Job) : Nat := a.entries.length + (promises a.entries).length

theorem load_settle (g : Registry) (due : Nat) (l : Leave) (succeeded : Bool) (a : Agenda Job) :
    load (a.edit (edit (g.settle due l.key l.permit succeeded))) ≤ load a + 1 := by
  have hstarted : (edit (g.settle due l.key l.permit succeeded)).enters.length ≤ 1 := by
    cases hs : (g.settle due l.key l.permit succeeded).started <;> simp [edit, hs]
  have hkept := List.length_filter_le
    (fun w => !(edit (g.settle due l.key l.permit succeeded)).strikes w.2) a.entries
  rw [load, promises_edit, load, Agenda.edit, List.length_append]
  omega

theorem load_pop {a a' : Agenda Job} {due : Nat} {j : Job}
    (h : a.pop? limit = some ((due, j), a')) :
    load a = load a' + 1 + (j.record? due).toList.length := by
  have hpromised := (promises_pop h).length_eq
  obtain ⟨-, before, after, ha, ha'⟩ := Agenda.pop?_eq_some h
  rw [List.length_append] at hpromised
  rw [load, load, hpromised, ha, ha']
  simp only [List.length_append, List.length_cons]
  omega

/-- Everything that is due by a time is done by then. -/
theorem elapse_done (d : Dispatcher) (limit : Nat) :
    ∀ x ∈ (d.elapse limit).agenda.entries, limit < x.1 := by
  have hpromised : (promises d.agenda.entries).length ≤ d.agenda.entries.length :=
    List.length_filterMap_le ..
  -- The end of a call may enter a timer, so the entries alone need not become fewer.
  refine Agenda.pop?_eq_none (Agenda.runSteps_exhausts load (fun {a a' due j s} hpop => ?_) _ _ _
    (by unfold load; omega))
  have hload := load_pop hpop
  rcases hs : s.1 with _ | g
  · have hedit : a'.edit {} = a' := by simp [Agenda.edit]
    simp only [work, hs, hedit]
    omega
  · cases j with
    | timer key u =>
      simp only [work, hs, edit_fire]
      omega
    | giveBack l succeeded =>
      have hle := load_settle g due l succeeded a'
      simp only [Job.record?, Option.toList_some, List.length_singleton] at hload
      simp only [work, hs]
      omega

end Time

section Landing

theorem promises_foldl_giveBack (time : Nat) : ∀ (ls : List Leave) (d : Dispatcher),
    promises (ls.foldl (fun d l => d.giveBack time l false) d).agenda.entries
      = promises d.agenda.entries
  | [], _ => rfl
  | _ :: ls, _ => (promises_foldl_giveBack time ls _).trans (promises_giveBack ..)

theorem foldl_giveBack_accounts (time : Nat) (rest : List Record) : ∀ (ls : List Leave)
    {d : Dispatcher} {r : Registry}, d.guard = some r →
    ∃ r', (ls.foldl (fun d l => d.giveBack time l false) d).guard = some r'
      ∧ r.Accounts (ls.map (⟨time, ·, false⟩) ++ rest) []
        ((ls.map (⟨time, ·, false⟩)).map .recorded) r' rest
  | [], _, r, hg => ⟨r, hg, .refl r rest⟩
  | l :: ls, _, r, hg => by
    obtain ⟨r', hg', hrest⟩ :=
      foldl_giveBack_accounts time rest ls (giveBack_guarded hg time l false)
    exact ⟨r', hg', (Registry.Accounts.record r ⟨time, l, false⟩ _).trans hrest⟩

theorem land_promises (d : Dispatcher) (f : Flight) :
    promises (d.land f).agenda.entries = promises (d.elapse f.finish).agenda.entries := by
  rw [land_eq]
  exact promises_foldl_giveBack ..

/-- What is done at the breakers of a dispatcher until a flight has landed. -/
def landVisits (d : Dispatcher) (f : Flight) : List Visit :=
  d.elapseVisits f.finish ++ f.cancellations.map .recorded

def landAllVisits : Dispatcher → List Flight → List Visit
  | _, [] => []
  | d, f :: fs => d.landVisits f ++ landAllVisits (d.land f) fs

theorem land_accounts (hg : d.guard = some r) (f : Flight) (rest : List Record) :
    ∃ r', (d.land f).guard = some r'
      ∧ r.Accounts (promises d.agenda.entries ++ (f.cancellations ++ rest)) [] (d.landVisits f) r'
        (promises (d.land f).agenda.entries ++ rest) := by
  obtain ⟨r₁, hg₁, helapse⟩ := elapse_accounts hg f.finish (f.cancellations ++ rest)
  obtain ⟨r₂, hg₂, hcancel⟩ := foldl_giveBack_accounts f.finish
    (promises (d.elapse f.finish).agenda.entries ++ rest) f.cancelled hg₁
  rw [land_promises, land_eq]
  refine ⟨r₂, hg₂, helapse.trans (hcancel.perm ?_ (.refl _) (.refl _))⟩
  exact List.perm_append_comm_assoc ..

theorem foldl_land_accounts (rest : List Record) : ∀ (fs : List Flight) {d : Dispatcher}
    {r : Registry}, d.guard = some r → ∃ r', (fs.foldl land d).guard = some r'
      ∧ r.Accounts (promises d.agenda.entries ++ (fs.flatMap (·.cancellations) ++ rest)) []
        (d.landAllVisits fs) r' (promises (fs.foldl land d).agenda.entries ++ rest)
  | [], _, r, hg => ⟨r, hg, .refl r _⟩
  | f :: fs, d, r, hg => by
    obtain ⟨r₁, hg₁, hfirst⟩ := land_accounts hg f (fs.flatMap (·.cancellations) ++ rest)
    obtain ⟨r₂, hg₂, hrest⟩ := foldl_land_accounts rest fs hg₁
    rw [List.flatMap_cons, List.append_assoc]
    exact ⟨r₂, hg₂, hfirst.trans hrest⟩

theorem foldl_land_promises : ∀ (fs : List Flight) {d : Dispatcher} {r : Registry},
    d.guard = some r → ∀ x ∈ promises (fs.foldl land d).agenda.entries,
      x ∈ promises d.agenda.entries
  | [], _, _, _, _, hx => hx
  | f :: fs, d, r, hg, x, hx => by
    obtain ⟨r₁, hg₁, -⟩ := land_accounts hg f []
    have hland := foldl_land_promises fs hg₁ x hx
    rw [land_promises] at hland
    exact mem_of_elapse hg hland

end Landing

end Dispatcher

namespace Traffic

variable {t : Traffic} {r : Registry} {limit : Nat}

/-- What is yet to be recorded of the calls that are out. -/
def outstanding (t : Traffic) : List Record :=
  promises t.dispatcher.agenda.entries ++ t.flights.flatMap (·.cancellations)

/-- What is done at the breakers by an act. -/
def actVisits (t : Traffic) : Act → List Visit
  | .launch es => ((t.dispatcher.ready es).sorties es).flatMap (·.visits)
  | .wait ms =>
    let limit := t.dispatcher.now + ms
    t.dispatcher.landAllVisits (t.due limit)
      ++ ((t.due limit).foldl Dispatcher.land t.dispatcher).elapseVisits limit

/-- What is done at the breakers in the course of a run. -/
def visits : Traffic → List Act → List Visit
  | _, [] => []
  | t, a :: as => t.actVisits a ++ visits (t.act a) as

theorem launch_promises (t : Traffic) (es : List Errand) :
    (promises (t.launch es).dispatcher.agenda.entries).Perm (promises t.dispatcher.agenda.entries
      ++ ((t.dispatcher.ready es).sorties es).flatMap fun s => promises s.flight.returns) := by
  have henrol := Dispatcher.promises_enrol t.dispatcher.agenda.entries
    ((t.dispatcher.ready es).launchAll es).1.agenda.entries
    (((t.dispatcher.ready es).launchAll es).2.flatMap (·.returns))
  have hreturns : promises (((t.dispatcher.ready es).launchAll es).2.flatMap (·.returns))
      = ((t.dispatcher.ready es).sorties es).flatMap fun s => promises s.flight.returns := by
    rw [Dispatcher.launchAll_sorties, List.flatMap_map, promises, List.filterMap_flatMap]
    rfl
  rw [Dispatcher.promises_launchAll, hreturns] at henrol
  exact henrol

theorem launch_accounts (hg : t.dispatcher.guard = some r) (es : List Errand) :
    ∃ r', (t.launch es).dispatcher.guard = some r'
      ∧ r.Accounts t.outstanding (((t.dispatcher.ready es).sorties es).flatMap (·.records))
        (t.actVisits (.launch es)) r' (t.launch es).outstanding := by
  obtain ⟨r', hg', h⟩ := Dispatcher.launchAll_accounts es t.outstanding
    (show (t.dispatcher.ready es).guard = some r from hg)
  let sorties := (t.dispatcher.ready es).sorties es
  have howed :
      (sorties.flatMap fun s => s.flight.airborne.flatMap (·.promised s.flight.finish)).Perm
        (sorties.flatMap (promises ·.flight.returns) ++ sorties.flatMap (·.flight.cancellations)) :=
    (List.Perm.flatMap_left _ fun s _ =>
      Dispatcher.flight_promises (s.base.launch_length s.errand)).trans
        (List.flatMap_append_perm ..).symm
  have hcancelled : (t.launch es).flights.flatMap (·.cancellations)
      = t.flights.flatMap (·.cancellations) ++ sorties.flatMap (·.flight.cancellations) := by
    refine List.flatMap_append.trans (congrArg _ ?_)
    rw [flatMap_filter fun f hf hempty => ?_, List.flatMap_map]
    obtain ⟨s, -, rfl⟩ := List.mem_map.1 hf
    have hnone : s.flight.unfinished = [] :=
      Flight.unfinished_nil (by simpa using hempty)
    rw [Flight.cancellations, Flight.cancelled_of_unfinished hnone, List.map_nil]
  refine ⟨r', hg', h.perm (.refl _) (.refl _) ?_⟩
  rw [outstanding, outstanding, hcancelled]
  refine List.perm_iff_count.2 fun x => ?_
  have h₁ := howed.count_eq x
  have h₂ := (t.launch_promises es).count_eq x
  simp only [List.count_append, sorties] at h₁ h₂ ⊢
  omega

theorem elapse_accounts (hg : t.dispatcher.guard = some r) (ms : Nat) :
    ∃ r', (t.act (.wait ms)).dispatcher.guard = some r'
      ∧ r.Accounts t.outstanding [] (t.actVisits (.wait ms)) r'
        (t.act (.wait ms)).outstanding := by
  let limit := t.dispatcher.now + ms
  let later := (t.flights.filter (limit < ·.finish)).flatMap (·.cancellations)
  obtain ⟨r₁, hg₁, hland⟩ := Dispatcher.foldl_land_accounts later (t.due limit) hg
  obtain ⟨r₂, hg₂, helapse⟩ := Dispatcher.elapse_accounts hg₁ limit later
  refine ⟨r₂, hg₂, (hland.trans helapse).perm (.append_left _ ?_) (.refl _) (.refl _)⟩
  have hdue : (t.due limit).Perm (t.flights.filter (·.finish ≤ limit)) := List.mergeSort_perm ..
  refine ((filter_le_append_lt Flight.finish limit t.flights).symm.flatMap_right _).trans ?_
  rw [List.flatMap_append]
  exact (hdue.symm.flatMap_right _).append_right later

/-- What is owed has been recorded or is outstanding, and what is entered in the agenda is owed by
calls of flights under way. -/
structure Balanced (r₀ : Registry) (vs : List Visit) (t : Traffic) : Prop where
  registry : ∃ r, t.dispatcher.guard = some r
    ∧ r₀.Accounts [] (t.sorties.flatMap (·.records)) vs r t.outstanding
  owned : ∀ x ∈ promises t.dispatcher.agenda.entries, ∃ f ∈ t.flights, x.time ≤ f.finish

variable {r₀ : Registry} {vs : List Visit}

theorem Balanced.launch (h : Balanced r₀ vs t) (es : List Errand) :
    Balanced r₀ (vs ++ t.actVisits (.launch es)) (t.launch es) where
  registry := by
    obtain ⟨r, hg, hr⟩ := h.registry
    obtain ⟨r', hg', hr'⟩ := launch_accounts hg es
    refine ⟨r', hg', ?_⟩
    rw [show (t.launch es).sorties = t.sorties ++ (t.dispatcher.ready es).sorties es from rfl,
      List.flatMap_append]
    exact hr.trans hr'
  owned x hx := by
    rcases List.mem_append.1 ((t.launch_promises es).mem_iff.1 hx) with hx | hx
    · obtain ⟨f, hf, hle⟩ := h.owned x hx
      exact ⟨f, List.mem_append_left _ hf, hle⟩
    · obtain ⟨s, hs, hx⟩ := List.mem_flatMap.1 hx
      obtain ⟨e, he, htime⟩ := promises_time hx
      obtain ⟨a, ha, hleave⟩ := List.mem_filterMap.1 he
      obtain ⟨hair, hle⟩ := List.mem_filter.1 ha
      obtain ⟨l, -, rfl⟩ := Option.map_eq_some_iff.1 hleave
      have hcalls : s.flight.calls.isEmpty = false := by
        rw [← Bool.not_eq_true]
        intro hempty
        have hnone : s.flight.airborne = [] :=
          Dispatcher.launch_airborne_nil (List.isEmpty_iff.1 hempty)
        rw [hnone] at hair
        cases hair
      refine ⟨s.flight, List.mem_append_right _ (List.mem_filter.2
        ⟨List.mem_map_of_mem hs, by rw [hcalls]; rfl⟩), ?_⟩
      rw [← htime]
      exact of_decide_eq_true hle

theorem Balanced.wait (h : Balanced r₀ vs t) (ms : Nat) :
    Balanced r₀ (vs ++ t.actVisits (.wait ms)) (t.act (.wait ms)) where
  registry := by
    obtain ⟨r, hg, hr⟩ := h.registry
    obtain ⟨r', hg', hr'⟩ := elapse_accounts hg ms
    have hboth := hr.trans hr'
    rw [List.append_nil] at hboth
    exact ⟨r', hg', hboth⟩
  owned x hx := by
    obtain ⟨r, hg, -⟩ := h.registry
    let limit := t.dispatcher.now + ms
    obtain ⟨r₁, hg₁, -⟩ := Dispatcher.foldl_land_accounts [] (t.due limit) hg
    -- What is left is not due yet, so the flight that owes it is still under way.
    obtain ⟨e, he, htime⟩ := promises_time hx
    have hlater := Dispatcher.elapse_done _ limit e he
    obtain ⟨f, hf, hle⟩ := h.owned x
      (Dispatcher.foldl_land_promises (t.due limit) hg x (Dispatcher.mem_of_elapse hg₁ hx))
    exact ⟨f, List.mem_filter.2 ⟨hf, decide_eq_true (by omega)⟩, hle⟩

theorem Balanced.run (h : Balanced r₀ vs t) : ∀ as : List Act,
    Balanced r₀ (vs ++ t.visits as) (t.run as) := by
  intro as
  induction as generalizing vs t with
  | nil =>
    rw [visits, List.append_nil]
    exact h
  | cons a as ih =>
    have hact : Balanced r₀ (vs ++ t.actVisits a) (t.act a) := by
      cases a with
      | launch es => exact h.launch es
      | wait ms => exact h.wait ms
    have hrest := ih hact
    rwa [List.append_assoc] at hrest

/-- When nothing is under way nothing is outstanding. -/
theorem Balanced.idle (h : Balanced r₀ vs t) (hidle : t.flights = []) : t.outstanding = [] := by
  have hnone : promises t.dispatcher.agenda.entries = [] :=
    List.eq_nil_iff_forall_not_mem.2 fun x hx => by
      obtain ⟨f, hf, -⟩ := h.owned x hx
      rw [hidle] at hf
      cases hf
  rw [outstanding, hnone, hidle]
  rfl

theorem balanced_new (transport : Transport) (config : Config) :
    Balanced { config } [] (new transport (some config)) :=
  ⟨⟨_, rfl, .refl _ _⟩, fun _ hx => nomatch hx⟩

/-- Over any transport and through any launches and waits, the breakers go through visits in which
every result is that of a leave which is out. What the calls owe has been recorded or is
outstanding. When nothing is under way, each call that was let through has been recorded once, and
every breaker that is half open lets the next call through. That is so after any dispatches that
were done side by side. -/
theorem run_settles (transport : Transport) (config : Config) (as : List Act) :
    let t₀ := new transport (some config)
    let t := t₀.run as
    ∃ r, t.dispatcher.guard = some r
      ∧ Registry.Serves { config } [] (t₀.visits as) r (t.outstanding.map (·.leave))
      ∧ (t.sorties.flatMap (·.records)).Perm (records (t₀.visits as) ++ t.outstanding)
      ∧ (t.flights = [] →
        (t.sorties.flatMap (·.records)).Perm (records (t₀.visits as))
          ∧ (∀ key, (r.breaker key).state = .halfOpen → (r.allow key).2 = some ⟨true⟩)
          ∧ ∀ es, ∃ ms, t.run [.launch es, .wait ms]
            = { dispatcher := (t.dispatcher.dispatchAll es).1
                sorties := t.sorties ++ (t.dispatcher.ready es).sorties es }) := by
  intro t₀ t
  have h : Balanced { config } (t₀.visits as) t := (balanced_new transport config).run as
  obtain ⟨r, hg, hr⟩ := h.registry
  have hbalance := hr.balance
  rw [List.append_nil] at hbalance
  refine ⟨r, hg, hr.serves, hbalance, fun hidle => ?_⟩
  have hserves := hr.serves
  rw [h.idle hidle] at hbalance hserves
  rw [List.append_nil] at hbalance
  have hfresh : Registry.Probes { config } [] := fun key hp => nomatch hp
  exact ⟨hbalance, fun key => (hserves.probes hfresh).admits, dispatchAll_run hidle⟩

/-- Of the calls to three hosts one is answered after 10 milliseconds, one dies after 20 and one
would be answered after 50. -/
def fatal : Transport := fun _ r _ =>
  if r.uri.authority = some "a" then ⟨some 10, .outcome (.response ⟨500, [], []⟩)⟩
  else if r.uri.authority = some "b" then ⟨some 20, .fault⟩
  else ⟨some 50, .outcome (.response ⟨204, [], []⟩)⟩

def fatalErrand (hosts : List String) : Errand where
  adapter :=
    { name := "partner"
      build := fun _ => (hosts.map fun host =>
        ⟨⟨⟨"POST"⟩, ⟨some "http", some host, "/bids", none⟩, [], []⟩, []⟩, [])
      read := fun _ _ => ([], []) }
  auction := ⟨"r", [], []⟩
  deadline := ⟨100⟩
  debug := false

/-- The second dispatch begins while the first is under way, and its call to a host whose breaker
has opened is vetoed. -/
def overlapping : List Act :=
  [.launch [fatalErrand ["a", "b", "c"]], .wait 30, .launch [fatalErrand ["a", "b"]], .wait 70]

theorem run_settles_overlapping :
    let t₀ := new fatal (some ⟨1, 1000, 1000⟩)
    let t := t₀.run overlapping
    t.flights = [] ∧ (records (t₀.visits overlapping)).Perm
      [⟨10, ⟨"a", ⟨false⟩⟩, true⟩, ⟨20, ⟨"b", ⟨false⟩⟩, false⟩, ⟨20, ⟨"c", ⟨false⟩⟩, false⟩,
        ⟨40, ⟨"a", ⟨false⟩⟩, true⟩] := by
  intro t₀ t
  obtain ⟨r, -, -, -, hidle⟩ := run_settles fatal ⟨1, 1000, 1000⟩ overlapping
  have hflights : t.flights = [] := List.isEmpty_iff.1 (by decide +kernel)
  have howed : t.sorties.flatMap (·.records) = [⟨10, ⟨"a", ⟨false⟩⟩, true⟩,
      ⟨20, ⟨"b", ⟨false⟩⟩, false⟩, ⟨20, ⟨"c", ⟨false⟩⟩, false⟩, ⟨40, ⟨"a", ⟨false⟩⟩, true⟩] := by
    decide +kernel
  exact ⟨hflights, howed ▸ (hidle hflights).1.symm⟩

end Traffic

end AuctionGate
