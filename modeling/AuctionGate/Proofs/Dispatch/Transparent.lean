import AuctionGate.Proofs.Dispatch.Twins

/-!
# Breakers that do not open are not noticed

As long as no breaker opens, dispatches that overlap in any way go as they go without breakers
(`Traffic.Twins`). If every call that is sent is answered in time with a response, no breaker opens
(`Traffic.Calm`).
-/

namespace AuctionGate

open Breaker

/-- Every call that is let through is answered in time with a response. -/
def Sortie.Answered (s : Sortie) : Prop :=
  ∀ x ∈ s.turns, x.1.now < s.errand.deadline.time → (x.1.ask x.2.request).2.isSome →
    (x.1.reaction s.errand.deadline x.2).answersBy x.1.now s.errand.deadline.time = true

theorem Occurrence.told_still (f : Flight) : ∀ o ∈ f.told, ∀ a, o.opens a = false := by
  intro o ho a
  unfold Flight.told at ho
  split at ho
  · rcases List.mem_append.1 ho with ho | ho
    · obtain ⟨x, -, hx⟩ := List.mem_flatMap.1 ho
      rcases List.mem_append.1 hx with hx | hx
      · split_ifs at hx
        · cases hx
        · rw [List.mem_singleton.1 hx]
          rfl
      · obtain ⟨e, -, rfl⟩ := Option.map_eq_some_iff.1 (Option.mem_toList.1 hx)
        rfl
    · rw [List.mem_singleton.1 ho]
      rfl
  · rw [List.mem_singleton.1 ho]
    rfl

theorem Occurrence.toldIfEmpty_still (es : List Errand) :
    ∀ o ∈ es.flatMap Errand.toldIfEmpty, ∀ a, o.opens a = false := by
  intro o ho a
  obtain ⟨e, -, ho⟩ := List.mem_flatMap.1 ho
  simp only [Errand.toldIfEmpty, Adapter.toldOfEmpty] at ho
  split_ifs at ho
  · simp only [List.mem_append, List.mem_singleton] at ho
    rcases ho with rfl | rfl <;> rfl
  · rw [List.nil_append, List.mem_singleton] at ho
    rw [ho]
    rfl
  · cases ho

namespace Dispatcher

section Calm

/-- The breakers are closed and none has ever opened. -/
structure Calm (d : Dispatcher) : Prop where
  closed : ∃ r, d.guard = some r ∧ r.Closed
  journal : d.journal.Unopened

theorem Calm.ask (h : Calm d) (q : Http.Request) : Calm (d.ask q).1 := by
  obtain ⟨r, hg, hr⟩ := h.closed
  refine ⟨⟨_, (ask_guarded hg q).1, (hr.allow (hostKey q)).1⟩, ?_⟩
  simp only [Dispatcher.ask, hg]
  exact Journal.unopened_note.2 ⟨fun o ho => (r.allow_told (hostKey q) o ho).2, h.journal⟩

theorem Calm.giveBack (h : Calm d) (time : Nat) (l : Leave) : Calm (d.giveBack time l true) := by
  obtain ⟨r, hg, hr⟩ := h.closed
  have hclosed := settle_succeeded_closed (c := r.config) (p := l.permit) (hr l.key)
  refine ⟨⟨_, giveBack_guarded hg .., hr.carry hclosed⟩, ?_⟩
  simp only [Dispatcher.giveBack, hg]
  exact (hr.unopened_carry (settle_tells ..)).2 ⟨hclosed, h.journal⟩

theorem Calm.handOver (h : Calm d) (deadline : Deadline) (c : Call) :
    Calm (d.handOver deadline c) :=
  ⟨(h.ask c.request).closed, (h.ask c.request).journal⟩

/-- A call that comes back has not died, and if it has a leave to give back it has succeeded. -/
def Fine (a : Airborne) : Prop :=
  a.ended ≠ .died ∧ ∀ l, a.leave = some l → a.ended.succeeded = true

theorem Calm.issue (h : Calm d) (i : Nat)
    (hans : d.now < deadline.time → (d.ask c.request).2.isSome →
      (d.reaction deadline c).answersBy d.now deadline.time = true) :
    Calm (d.issue deadline i c).1 ∧ Fine (d.issue deadline i c).2 := by
  have hback (hlt : d.now < deadline.time) (hask : (d.ask c.request).2.isSome) :
      (d.back deadline c).2.succeeded = true := by
    have hsucceeded := back_succeeded hlt c deadline.time
    rw [Nat.min_self, hans hlt hask, Bool.and_eq_true] at hsucceeded
    exact hsucceeded.2
  have halive {e : Ended} (he : e.succeeded = true) : e ≠ .died := by
    rintro rfl
    cases he
  rcases d.issue_cases deadline c with hlt | ⟨hlt, hask | ⟨l, hask, h0⟩ | ⟨leave, hask, h0⟩⟩
  · rw [issue_spent hlt]
    exact ⟨h, nofun, nofun⟩
  · rw [issue_vetoed hlt hask]
    exact ⟨h.ask c.request, nofun, nofun⟩
  · have hsucceeded := hback hlt (by rw [hask]; rfl)
    rw [issue_at_once hlt hask h0, hsucceeded]
    exact ⟨(h.handOver deadline c).giveBack d.now l, halive hsucceeded, nofun⟩
  · have hsucceeded := hback hlt (by rw [hask]; rfl)
    rw [issue_out hlt hask h0]
    exact ⟨h.handOver deadline c, halive hsucceeded, fun _ _ => hsucceeded⟩

theorem Calm.issueAll : ∀ (cs : List Call) {d : Dispatcher} (i : Nat), Calm d →
    (∀ x ∈ turns deadline d i cs, x.1.now < deadline.time → (x.1.ask x.2.request).2.isSome →
      (x.1.reaction deadline x.2).answersBy x.1.now deadline.time = true) →
    Calm (d.issueAll deadline i cs).1 ∧ ∀ a ∈ (d.issueAll deadline i cs).2, Fine a
  | [], _, _, h, _ => ⟨h, nofun⟩
  | c :: cs, d, i, h, hans => by
    obtain ⟨hfirst, hfine⟩ := h.issue i (hans (d, c) List.mem_cons_self)
    obtain ⟨hrest, hfines⟩ :=
      hfirst.issueAll cs (i + 1) fun x hx => hans x (List.mem_cons_of_mem _ hx)
    exact ⟨hrest, List.forall_mem_cons.2 ⟨hfine, hfines⟩⟩

/-- A flight whose calls are all answered waits for all of them, and they all succeed. -/
theorem fine_flight {f : Flight} (h : ∀ a ∈ f.airborne, Fine a) :
    f.cancelled = [] ∧ ∀ x ∈ promises f.returns, x.succeeded = true := by
  constructor
  · -- No call dies, so none comes back after the flight ends.
    exact Flight.cancelled_of_unfinished
      (Flight.unfinished_eq_nil (Flight.finish_last fun a ha => (h a ha).1))
  · intro x hx
    obtain ⟨e, he, hx⟩ := List.mem_filterMap.1 hx
    obtain ⟨a, ha, hleave⟩ := List.mem_filterMap.1 he
    obtain ⟨l, hl, rfl⟩ := Option.map_eq_some_iff.1 hleave
    rw [← Option.some.inj hx]
    exact (h a (List.mem_filter.1 ha).1).2 l hl

theorem Calm.launchAll : ∀ (es : List Errand) {d : Dispatcher}, Calm d →
    (∀ s ∈ d.sorties es, s.Answered) → Calm (d.launchAll es).1
      ∧ ∀ s ∈ d.sorties es, ∀ a ∈ s.flight.airborne, Fine a
  | [], _, h, _ => ⟨h, nofun⟩
  | e :: es, d, h, hans => by
    obtain ⟨hfirst, hfine⟩ :=
      h.issueAll (e.adapter.build e.auction).1 0 (hans ⟨d, e⟩ List.mem_cons_self)
    obtain ⟨hrest, hfines⟩ :=
      Calm.launchAll es hfirst fun s hs => hans s (List.mem_cons_of_mem _ hs)
    exact ⟨hrest, List.forall_mem_cons.2 ⟨hfine, hfines⟩⟩

/-- A calm dispatcher, to which every call under way will come back as a success. -/
structure Serene (d : Dispatcher) : Prop extends Calm d where
  promised : ∀ x ∈ promises d.agenda.entries, x.succeeded = true

theorem Serene.elapse (h : Serene d) (limit : Nat) : Serene (d.elapse limit) := by
  have hrun : (∃ r, (d.elapse limit).guard = some r ∧ r.Closed)
      ∧ (d.elapse limit).journal.Unopened
      ∧ ∀ x ∈ promises (d.elapse limit).agenda.entries, x.succeeded = true := by
    refine Agenda.runSteps_keeps
      (P := fun a (s : Option Registry × Journal) => (∃ r, s.1 = some r ∧ r.Closed)
        ∧ s.2.Unopened ∧ ∀ x ∈ promises a.entries, x.succeeded = true)
      (fun {a a' due j s} hs hpop => ?_) _ _ _ ⟨h.closed, h.journal, h.promised⟩
    obtain ⟨⟨r, hr, hclosed⟩, hj, hp⟩ := hs
    have hpromised := promises_pop hpop
    have hrest : ∀ x ∈ promises a'.entries, x.succeeded = true :=
      fun x hx => hp x (hpromised.mem_iff.2 (List.mem_append_right _ hx))
    cases j with
    | timer key u =>
      have hstep := fire_closed (t := u) (hclosed key)
      simp only [work, hr, promises_edit]
      exact ⟨⟨_, rfl, hclosed.carry hstep⟩,
        (hclosed.unopened_carry (fire_tells ..)).2 ⟨hstep, hj⟩, hrest⟩
    | giveBack l succeeded =>
      have hdue : ⟨due, l, succeeded⟩ ∈ promises a.entries :=
        hpromised.mem_iff.2 (List.mem_append_left _ List.mem_cons_self)
      obtain rfl : succeeded = true := hp _ hdue
      have hstep := settle_succeeded_closed (c := r.config) (p := l.permit) (hclosed l.key)
      simp only [work, hr, promises_edit]
      exact ⟨⟨_, rfl, hclosed.carry hstep⟩,
        (hclosed.unopened_carry (settle_tells ..)).2 ⟨hstep, hj⟩, hrest⟩
  exact ⟨⟨hrun.1, hrun.2.1⟩, hrun.2.2⟩

theorem Serene.land {f : Flight} (h : Serene d) (hf : f.cancelled = []) :
    Serene (d.land f) := by
  have helapsed := h.elapse f.finish
  have hjournal := Journal.unopened_note.2 ⟨Occurrence.told_still f, helapsed.journal⟩
  rw [land_eq, hf]
  exact ⟨⟨helapsed.closed, hjournal⟩, helapsed.promised⟩

theorem Serene.foldl_land : ∀ (fs : List Flight) {d : Dispatcher}, Serene d →
    (∀ f ∈ fs, f.cancelled = []) → Serene (fs.foldl Dispatcher.land d)
  | [], _, h, _ => h
  | f :: fs, _, h, hf =>
    (h.land (hf f List.mem_cons_self)).foldl_land fs fun g hg => hf g (List.mem_cons_of_mem f hg)

end Calm

end Dispatcher

namespace Traffic

variable {t b : Traffic} {es : List Errand} {ms : Nat}

section Twins

/-- Traffic with breakers that are closed, and traffic without breakers that is otherwise the
same. -/
structure Twins (t b : Traffic) : Prop where
  dispatcher : Dispatcher.Twins t.dispatcher b.dispatcher
  flights : b.flights = t.flights.map (·.bare)
  sorties : b.sorties.map (·.flight) = t.sorties.map (·.flight.bare)

theorem unopened_launch (h : (t.launch es).dispatcher.journal.Unopened) :
    t.dispatcher.journal.Unopened :=
  Dispatcher.unopened_aloft h

theorem unopened_wait (h : (t.act (.wait ms)).dispatcher.journal.Unopened) :
    t.dispatcher.journal.Unopened :=
  Dispatcher.unopened_foldl_land _ (Dispatcher.unopened_elapse h)

theorem unopened_run : ∀ (as : List Act) {t : Traffic},
    (t.run as).dispatcher.journal.Unopened → t.dispatcher.journal.Unopened
  | [], _, h => h
  | .launch _ :: as, _, h => unopened_launch (unopened_run as h)
  | .wait _ :: as, _, h => unopened_wait (unopened_run as h)

theorem Twins.launch (h : Twins t b) (hj : (t.launch es).dispatcher.journal.Unopened) :
    Twins (t.launch es) (b.launch es) := by
  obtain ⟨haloft, hflights⟩ := h.dispatcher.aloft hj
  rw [Dispatcher.launchAll_sorties, Dispatcher.launchAll_sorties, List.map_map] at hflights
  refine ⟨haloft, ?_, ?_⟩
  · simp only [Traffic.launch, h.flights, hflights, List.map_append, List.filter_map, List.map_map]
    rfl
  · simp only [Traffic.launch, List.map_append, h.sorties, hflights]
    rfl

theorem Twins.due (h : Twins t b) (limit : Nat) : b.due limit = (t.due limit).map (·.bare) := by
  rw [Traffic.due, Traffic.due, ← Dispatcher.bare_mergeSort, h.flights, List.filter_map]
  simp only [Function.comp_def, Dispatcher.bare_finish]

theorem Twins.wait (h : Twins t b) (hj : (t.act (.wait ms)).dispatcher.journal.Unopened) :
    Twins (t.act (.wait ms)) (b.act (.wait ms)) := by
  have hlanded := h.dispatcher.foldl_land (t.due (t.dispatcher.now + ms))
    (Dispatcher.unopened_elapse hj)
  have helapsed := hlanded.elapse hj
  rw [← h.due] at helapsed
  have hbare : b.act (.wait ms) = b.elapse (t.dispatcher.now + ms) := by
    rw [act, h.dispatcher.now]
  rw [hbare]
  refine ⟨helapsed, ?_, h.sorties⟩
  simp only [Traffic.elapse, act, h.flights, List.filter_map, Function.comp_def,
    Dispatcher.bare_finish]

theorem Twins.run : ∀ (as : List Act) {t b : Traffic}, Twins t b →
    (t.run as).dispatcher.journal.Unopened → Twins (t.run as) (b.run as)
  | [], _, _, h, _ => h
  | .launch _ :: as, _, _, h, hj => (h.launch (unopened_run as hj)).run as hj
  | .wait _ :: as, _, _, h, hj => (h.wait (unopened_run as hj)).run as hj

theorem twins_new (transport : Transport) (config : Config) :
    Twins (new transport (some config)) (new transport none) :=
  ⟨⟨rfl, rfl, rfl, rfl, _, rfl, fun _ => rfl⟩, rfl, rfl⟩

end Twins

section Calm

/-- No breaker has opened, and every call that is out will be answered. -/
structure Calm (t : Traffic) : Prop where
  dispatcher : t.dispatcher.Serene
  waited : ∀ f ∈ t.flights, f.cancelled = []

theorem Calm.launch (h : Calm t) (hans : ∀ s ∈ (t.dispatcher.ready es).sorties es, s.Answered) :
    Calm (t.launch es) := by
  have hready : Dispatcher.Calm (t.dispatcher.ready es) :=
    ⟨h.dispatcher.closed, Journal.unopened_note.2
      ⟨Occurrence.toldIfEmpty_still es, h.dispatcher.journal⟩⟩
  obtain ⟨hlaunched, hfine⟩ := hready.launchAll es hans
  refine ⟨⟨⟨hlaunched.closed, hlaunched.journal⟩, fun x hx => ?_⟩, fun f hf => ?_⟩
  · rcases List.mem_append.1 ((t.launch_promises es).mem_iff.1 hx) with hx | hx
    · exact h.dispatcher.promised x hx
    · obtain ⟨s, hs, hx⟩ := List.mem_flatMap.1 hx
      exact (Dispatcher.fine_flight (hfine s hs)).2 x hx
  · rcases List.mem_append.1 hf with hf | hf
    · exact h.waited f hf
    · obtain ⟨s, hs, rfl⟩ := List.mem_map.1 (List.mem_filter.1 hf).1
      exact (Dispatcher.fine_flight (hfine s hs)).1

theorem Calm.wait (h : Calm t) (ms : Nat) : Calm (t.act (.wait ms)) where
  dispatcher := by
    refine Dispatcher.Serene.elapse (h.dispatcher.foldl_land _ fun f hf => h.waited f ?_) _
    exact (List.mem_filter.1 (List.mem_mergeSort.1 hf)).1
  waited f hf := h.waited f (List.mem_filter.1 hf).1

theorem sorties_run : ∀ (as : List Act) (t : Traffic), t.sorties ⊆ (t.run as).sorties
  | [], _ => List.Subset.refl _
  | .launch es :: as, t => List.Subset.trans (List.subset_append_left ..)
    (sorties_run as (t.launch es))
  | .wait ms :: as, t => sorties_run as (t.act (.wait ms))

theorem Calm.run : ∀ (as : List Act) {t : Traffic}, Calm t →
    (∀ s ∈ (t.run as).sorties, s.Answered) → Calm (t.run as)
  | [], _, h, _ => h
  | .launch _ :: as, _, h, hans =>
    Calm.run as (h.launch fun s hs => hans s (sorties_run as _ (List.mem_append_right _ hs))) hans
  | .wait ms :: as, _, h, hans => Calm.run as (h.wait ms) hans

theorem calm_new (transport : Transport) (config : Config) :
    Calm (new transport (some config)) :=
  ⟨⟨⟨⟨_, rfl, fun _ => rfl⟩, nofun⟩, nofun⟩, nofun⟩

end Calm

/-- What the caller of dispatches sees of them: what was sent, when it is, and of each dispatch
the result and the time it takes. -/
structure Seen where
  sent : List Sent
  now : Nat
  results : List (Except DispatchFault SeatBid × Nat)

def seen (t : Traffic) : Seen where
  sent := t.dispatcher.sent
  now := t.dispatcher.now
  results := t.sorties.map fun s => (s.flight.result, s.flight.elapsed)

theorem Twins.seen (h : Twins t b) : t.seen = b.seen := by
  have hbare (f : Flight) : (f.bare.result, f.bare.elapsed) = (f.result, f.elapsed) := by
    rw [Dispatcher.bare_result, Flight.elapsed, Dispatcher.bare_finish]
    rfl
  have hresults := congrArg (List.map fun f : Flight => (f.result, f.elapsed)) h.sorties
  simp only [List.map_map, Function.comp_def, hbare] at hresults
  rw [Traffic.seen, Traffic.seen, h.dispatcher.sent, h.dispatcher.now, hresults]

/-- A call that its breaker lets through is relayed as it is, and one that is vetoed is not sent.
So through any launches and waits in which no breaker opens, dispatches go as they go without
breakers, those that are done side by side among them. No breaker opens if every call that is let
through is answered in time with a response, whatever its status. -/
theorem run_transparent (transport : Transport) (config : Config) (as : List Act) :
    let t := (new transport (some config)).run as
    let b := (new transport none).run as
    (∀ (d : Dispatcher) (deadline : Deadline) (i : Nat) (c : Call), d.Relays deadline i c)
      ∧ (t.dispatcher.journal.Unopened → t.seen = b.seen ∧ b.flights = t.flights.map (·.bare))
      ∧ (∀ es, (t.dispatcher.dispatchAll es).1.journal.Unopened →
        (t.dispatcher.dispatchAll es).2 = (b.dispatcher.dispatchAll es).2
          ∧ (t.dispatcher.dispatchAll es).1.sent = (b.dispatcher.dispatchAll es).1.sent
          ∧ (t.dispatcher.dispatchAll es).1.now = (b.dispatcher.dispatchAll es).1.now)
      ∧ ((∀ s ∈ t.sorties, s.Answered) → t.dispatcher.journal.Unopened) := by
  intro t b
  have htwins := (twins_new transport config).run as
  refine ⟨Dispatcher.relays, fun hj => ⟨(htwins hj).seen, (htwins hj).flights⟩, fun es hj => ?_,
    fun hans => ((calm_new transport config).run as hans).dispatcher.journal⟩
  have hbefore : t.dispatcher.journal.Unopened := by
    rw [Dispatcher.dispatchAll_eq] at hj
    exact Dispatcher.unopened_aloft
      (Dispatcher.unopened_foldl_land _ (Dispatcher.unopened_elapse hj))
  obtain ⟨hafter, hresults⟩ := (htwins hbefore).dispatcher.dispatchAll hj
  exact ⟨hresults.symm, hafter.sent.symm, hafter.now.symm⟩

/-- A call dies and another is answered. -/
def borne : List Act :=
  [.launch [fatalErrand ["b"]], .wait 30, .launch [fatalErrand ["a"]], .wait 30]

/-- The breaker of the host whose call dies bears one failure. -/
theorem run_transparent_borne :
    let t := (new fatal (some ⟨2, 1000, 1000⟩)).run borne
    t.dispatcher.journal.Unopened ∧ t.seen = ((new fatal none).run borne).seen
      ∧ t.seen.results.map (·.2) = [20, 10] := by
  intro t
  have hj : t.dispatcher.journal.Unopened := by decide +kernel
  obtain ⟨-, hseen, -, -⟩ := run_transparent fatal ⟨2, 1000, 1000⟩ borne
  exact ⟨hj, (hseen hj).1, by decide +kernel⟩

end Traffic

end AuctionGate
