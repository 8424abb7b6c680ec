import AuctionGate.Proofs.Dispatch.Apart
import AuctionGate.Proofs.Dispatch.Traffic

/-!
# Dispatches with hosts of their own

An errand whose hosts no other errand calls goes as if it were alone: it has the same result after
the same time, and the breakers of its hosts are the same at any time, even if other dispatches die,
run into their deadlines or open breakers (`Traffic.run_isolated`).

Flights of other errands hold no leave of these hosts. When one lands only time has passed
(`Dispatcher.AgreeFrom.land_left`), so of what lands only the other flights count
(`Dispatcher.AgreeFrom.foldl_land`).
-/

namespace AuctionGate

open Dispatcher (hostKey)

section Order

variable {α : Type} {le : α → α → Bool}

theorem mergeSort_cons_filter (trans : ∀ a b c, le a b = true → le b c = true → le a c = true)
    (total : ∀ a b, (le a b || le b a) = true) (a : α) (l : List α) :
    (a :: l).mergeSort le
      = (l.mergeSort le).filter (!le a ·) ++ a :: (l.mergeSort le).filter (le a ·) := by
  obtain ⟨below, above, hcons, hl, hbelow⟩ := List.mergeSort_cons trans total a l
  have hsorted := List.pairwise_mergeSort trans total (a :: l)
  rw [hcons] at hsorted
  have habove := (List.pairwise_cons.1 (List.pairwise_append.1 hsorted).2.1).1
  rw [hcons, hl, List.filter_append, List.filter_append, List.filter_eq_self.2 hbelow,
    List.filter_eq_self.2 habove, List.filter_eq_nil_iff.2 fun b hb => by simp [habove b hb],
    List.filter_eq_nil_iff.2 fun b hb => by simpa using hbelow b hb, List.append_nil,
    List.nil_append]

theorem filter_mergeSort (trans : ∀ a b c, le a b = true → le b c = true → le a c = true)
    (total : ∀ a b, (le a b || le b a) = true) (p : α → Bool) :
    ∀ l : List α, (l.mergeSort le).filter p = (l.filter p).mergeSort le
  | [] => by simp
  | a :: l => by
    have ih := filter_mergeSort trans total p l
    cases hp : p a with
    | true =>
      have hcomm (q : α → Bool) :
          ((l.mergeSort le).filter q).filter p = ((l.filter p).mergeSort le).filter q := by
        simp only [← ih, List.filter_filter, Bool.and_comm]
      rw [List.filter_cons_of_pos hp, mergeSort_cons_filter trans total,
        mergeSort_cons_filter trans total, List.filter_append, List.filter_cons_of_pos hp, hcomm,
        hcomm]
    | false =>
      -- the others stand as they do without the entry that is dropped
      obtain ⟨below, above, hcons, hl, -⟩ := List.mergeSort_cons trans total a l
      rw [List.filter_cons_of_neg (by simp [hp]), ← ih, hcons, hl, List.filter_append,
        List.filter_append, List.filter_cons_of_neg (by simp [hp])]

end Order

/-- A call of the flight holds a leave of some of these hosts. -/
def Flight.touches (own : String → Bool) (f : Flight) : Bool :=
  f.airborne.any fun a => a.leave.any (own ·.key)

theorem Errand.foreign_of_apart {es es' : List Errand} {e : Errand}
    (h : (es ++ e :: es').Pairwise Errand.Apart) :
    (∀ e' ∈ es, e'.Foreign (e.hosts.contains ·)) ∧ ∀ e' ∈ es', e'.Foreign (e.hosts.contains ·) := by
  obtain ⟨-, hrest, hacross⟩ := List.pairwise_append.1 h
  refine ⟨fun e' he' k hk => ?_, fun e' he' k hk => ?_⟩
  · simpa using hacross e' he' e List.mem_cons_self k hk
  · simpa using fun hmem => (List.pairwise_cons.1 hrest).1 e' he' k hmem hk

namespace Dispatcher

variable {own : String → Bool} {d d' : Dispatcher} {deadline : Deadline} {i : Nat} {c : Call}
  {e : Errand} {es es' : List Errand} {f : Flight} {fs : List Flight} {limit : Nat}

section Leaves

theorem key_of_not_touches (h : f.touches own = false) {a : Airborne} (ha : a ∈ f.airborne)
    {l : Leave} (hl : a.leave = some l) : own l.key = false := by
  have hnone := List.any_eq_false.1 h a ha
  simpa [hl] using hnone

theorem filter_returns (own : String → Bool) (fs : List Flight) :
    (fs.flatMap (·.returns)).filter (own ·.2.key)
      = ((fs.filter (·.touches own)).flatMap (·.returns)).filter (own ·.2.key) := by
  rw [List.filter_flatMap, List.filter_flatMap]
  refine (flatMap_filter fun f _ hf => List.filter_eq_nil_iff.2 fun x hx => ?_).symm
  obtain ⟨a, ha, hx⟩ := List.mem_filterMap.1 hx
  obtain ⟨l, hl, rfl⟩ := Option.map_eq_some_iff.1 hx
  simp [Job.key, key_of_not_touches hf (List.mem_filter.1 ha).1 hl]

theorem cancelled_key (h : f.touches own = false) : ∀ l ∈ f.cancelled, own l.key = false := by
  intro l hl
  obtain ⟨x, hx, hl⟩ := List.mem_filterMap.1 hl
  exact key_of_not_touches h (Flight.mem_airborne_of_unfinished hx).1 hl

theorem issue_leave {l : Leave} (h : (d.issue deadline i c).2.leave = some l) :
    l.key = hostKey c.request := by
  rcases d.issue_cases deadline c with hlt | ⟨hlt, hask | ⟨l', hask, h0⟩ | ⟨leave, hask, h0⟩⟩
  · rw [issue_spent hlt] at h
    cases h
  · rw [issue_vetoed hlt hask] at h
    cases h
  · rw [issue_at_once hlt hask h0] at h
    cases h
  · rw [issue_out hlt hask h0] at h
    exact ask_key (hask.trans (congrArg some h))

theorem issueAll_leave (deadline : Deadline) : ∀ (cs : List Call) (d : Dispatcher) (i : Nat),
    ∀ a ∈ (d.issueAll deadline i cs).2, ∀ l, a.leave = some l →
      ∃ c ∈ cs, l.key = hostKey c.request
  | [], _, _, _, ha, _, _ => nomatch ha
  | c :: cs, d, i, a, ha, l, hl => by
    rcases List.mem_cons.1 ha with rfl | ha
    · exact ⟨c, List.mem_cons_self, issue_leave hl⟩
    · obtain ⟨c', hc', hkey⟩ := issueAll_leave deadline cs _ (i + 1) a ha l hl
      exact ⟨c', List.mem_cons_of_mem c hc', hkey⟩

theorem launch_touches (d : Dispatcher) (he : e.Foreign own) :
    (d.launch e).2.touches own = false := by
  refine List.any_eq_false.2 fun a ha => ?_
  rcases hl : a.leave with _ | l
  · simp
  · obtain ⟨c, hc, hkey⟩ := issueAll_leave e.deadline _ d 0 a ha l hl
    have hforeign := he _ (List.mem_map_of_mem hc)
    simp [hkey, hforeign]

end Leaves

section Sorties

theorem sorties_append : ∀ (es es' : List Errand) (d : Dispatcher),
    d.sorties (es ++ es') = d.sorties es ++ (d.launchAll es).1.sorties es'
  | [], _, _ => rfl
  | e :: es, es', d => congrArg (Sortie.mk d e :: ·) (sorties_append es es' (d.launch e).1)

theorem sorties_errand : ∀ (es : List Errand) (d : Dispatcher),
    (d.sorties es).map (·.errand) = es
  | [], _ => rfl
  | e :: es, d => congrArg (e :: ·) (sorties_errand es (d.launch e).1)

theorem sorties_touches (hes : ∀ e ∈ es, e.Foreign own) (d : Dispatcher) :
    ((d.sorties es).map (·.flight)).filter (·.touches own) = [] := by
  refine List.filter_eq_nil_iff.2 fun f hf => ?_
  obtain ⟨s, hs, rfl⟩ := List.mem_map.1 hf
  rw [Bool.not_eq_true]
  refine launch_touches s.base (hes s.errand ?_)
  rw [← d.sorties_errand es]
  exact List.mem_map_of_mem hs

/-- Of the flights of errands only that of the one to these hosts holds leaves of them. -/
theorem Agree.sorties (h : d.Agree own d') (hes : ∀ e ∈ es, e.Foreign own)
    (hes' : ∀ e ∈ es', e.Foreign own) (he : ∀ k ∈ e.hosts, own k = true) :
    ((d.sorties (es ++ e :: es')).map (·.flight)).filter (·.touches own)
      = ((d'.sorties [e]).map (·.flight)).filter (·.touches own) := by
  have hflight : Sortie.flight ⟨(d.launchAll es).1, e⟩ = Sortie.flight ⟨d', e⟩ :=
    ((h.launchAll_left es hes).launch he).2
  simp only [sorties_append, Dispatcher.sorties, List.map_append, List.map_cons, List.map_nil,
    List.filter_append, List.filter_cons, List.filter_nil, sorties_touches hes,
    sorties_touches hes', hflight, List.nil_append]

end Sorties

section Aloft

theorem filter_enrol {p : Nat × Job → Bool} {known known' entries entries' returns returns'}
    (hknown : known.filter p = known'.filter p) (hentries : entries.filter p = entries'.filter p)
    (hreturns : returns.filter p = returns'.filter p) :
    (enrol known entries returns).filter p = (enrol known' entries' returns').filter p := by
  have hcontains (x) (hx : p x = true) : known.contains x = known'.contains x := by
    have hmem : x ∈ known.filter p ↔ x ∈ known'.filter p := by rw [hknown]
    rw [List.mem_filter, List.mem_filter, and_iff_left hx, and_iff_left hx] at hmem
    rw [List.contains_eq_mem, List.contains_eq_mem, decide_eq_decide]
    exact hmem
  have hpart (q q' : Nat × Job → Bool) (hq : ∀ x, p x = true → q x = q' x) :
      (entries.filter q).filter p = (entries'.filter q').filter p := by
    rw [List.filter_comm p q, List.filter_comm p q', hentries]
    exact List.filter_congr fun x hx => hq x (List.mem_filter.1 hx).2
  simp only [enrol, List.filter_append, hreturns]
  rw [hpart _ _ hcontains, hpart _ _ fun x hx => by rw [hcontains x hx]]

theorem Agree.enrol {b b' : Dispatcher} (h : d.Agree own d') (hb : b.Agree own b')
    {returns returns' : List (Nat × Job)}
    (hreturns : returns.filter (own ·.2.key) = returns'.filter (own ·.2.key)) :
    Agree own
      { b with agenda := ⟨Dispatcher.enrol d.agenda.entries b.agenda.entries returns⟩ }
      { b' with agenda := ⟨Dispatcher.enrol d'.agenda.entries b'.agenda.entries returns'⟩ } :=
  { hb with agenda := congrArg Agenda.mk (filter_enrol (congrArg Agenda.entries h.agenda)
      (congrArg Agenda.entries hb.agenda) hreturns) }

theorem aloft_sorties (d : Dispatcher) (es : List Errand) :
    d.aloft es = { ((d.ready es).launchAll es).1 with
      agenda := ⟨Dispatcher.enrol d.agenda.entries ((d.ready es).launchAll es).1.agenda.entries
        ((((d.ready es).sorties es).map (·.flight)).flatMap (·.returns))⟩ } := by
  rw [← launchAll_sorties]
  rfl

/-- What has been noted and what has been cancelled is of no account. -/
theorem Agree.noted (h : d.Agree own d') (j j' : Journal) (l l' : List Aborted) :
    Agree own { d with journal := j, aborted := l } { d' with journal := j', aborted := l' } :=
  ⟨h.apart, h.transport, h.guard, h.now, h.agenda, h.sent⟩

theorem Agree.aloft_left (h : d.Agree own d') (hes : ∀ e ∈ es, e.Foreign own) :
    (d.aloft es).Agree own d' := by
  have hready : (d.ready es).Agree own d' := h.noted _ d'.journal _ d'.aborted
  have hstill : { d' with
      agenda := ⟨Dispatcher.enrol d'.agenda.entries d'.agenda.entries []⟩ } = d' := by
    rw [enrol_known fun _ hx => hx, List.append_nil]
  rw [aloft_sorties, ← hstill]
  refine h.enrol (hready.launchAll_left es hes) ?_
  rw [filter_returns, sorties_touches hes]
  rfl

/-- The calls of an errand are entered alike, whatever errands for other hosts go up with it. -/
theorem Agree.aloft (h : d.Agree own d') (hes : ∀ e ∈ es, e.Foreign own)
    (hes' : ∀ e ∈ es', e.Foreign own) (he : ∀ k ∈ e.hosts, own k = true) :
    (d.aloft (es ++ e :: es')).Agree own (d'.aloft [e]) := by
  have hready : (d.ready (es ++ e :: es')).Agree own (d'.ready [e]) := h.noted _ _ _ _
  have hlaunch := ((hready.launchAll_left es hes).launch he).1
  rw [aloft_sorties, aloft_sorties, launchAll_append]
  refine h.enrol (hlaunch.launchAll_left es' hes') ?_
  rw [filter_returns, hready.sorties hes hes' he, ← filter_returns]

end Aloft

section Landing

/-- Whatever time passes from now on, both come to the same for some hosts. -/
def AgreeFrom (own : String → Bool) (limit : Nat) (d d' : Dispatcher) : Prop :=
  ∀ limit', limit ≤ limit' → (d.elapse limit').Agree own (d'.elapse limit')

theorem Agree.from (h : d.Agree own d') (limit : Nat) : AgreeFrom own limit d d' :=
  fun limit' _ => h.elapse limit'

theorem Agree.foldl_giveBack (time : Nat) : ∀ (ls : List Leave) {d d' : Dispatcher},
    d.Agree own d' → Agree own (ls.foldl (fun d l => d.giveBack time l false) d)
      (ls.foldl (fun d l => d.giveBack time l false) d')
  | [], _, _, h => h
  | l :: ls, _, _, h => Agree.foldl_giveBack time ls (h.giveBack time l false)

theorem Agree.foldl_giveBack_left (time : Nat) : ∀ (ls : List Leave) {d d' : Dispatcher},
    (∀ l ∈ ls, own l.key = false) → d.Agree own d' →
      (ls.foldl (fun d l => d.giveBack time l false) d).Agree own d'
  | [], _, _, _, h => h
  | _ :: ls, _, _, hls, h =>
    Agree.foldl_giveBack_left time ls (List.forall_mem_cons.1 hls).2
      (h.giveBack_left (List.forall_mem_cons.1 hls).1 time false)

theorem AgreeFrom.land (h : AgreeFrom own limit d d') (hf : limit ≤ f.finish) :
    (d.land f).Agree own (d'.land f) := by
  rw [land_eq, land_eq]
  exact (Agree.foldl_giveBack f.finish f.cancelled (h f.finish hf)).noted _ _ _ _

/-- A flight of others lands unseen, apart from the time that has passed. -/
theorem AgreeFrom.land_left (h : AgreeFrom own limit d d') (hf : limit ≤ f.finish)
    (htouches : f.touches own = false) : AgreeFrom own f.finish (d.land f) d' := by
  intro limit' hle
  -- it gives back leaves of other hosts, and the time may pass in two steps
  have hlanded : (d.land f).Agree own (d.elapse f.finish) := by
    rw [land_eq]
    exact (Agree.foldl_giveBack_left f.finish f.cancelled (cancelled_key htouches)
      (.refl own (h f.finish hf).apart)).noted _ _ _ _
  have hlater := hlanded.elapse limit'
  rw [elapse_elapse d hle] at hlater
  exact hlater.trans (h limit' (hf.trans hle))

/-- Of the flights that land, those of others do not count. -/
theorem AgreeFrom.foldl_land {limit' : Nat} : ∀ (fs : List Flight) {d d' : Dispatcher}
    {limit : Nat}, fs.Pairwise (fun f g => f.finish ≤ g.finish) → (∀ f ∈ fs, limit ≤ f.finish) →
    limit ≤ limit' → (∀ f ∈ fs, f.finish ≤ limit') → AgreeFrom own limit d d' →
      Agree own ((fs.foldl Dispatcher.land d).elapse limit')
        (((fs.filter (·.touches own)).foldl Dispatcher.land d').elapse limit')
  | [], _, _, _, _, _, hle, _, h => h limit' hle
  | f :: fs, d, d', _, hsorted, hfrom, _, hto, h => by
    obtain ⟨hnext, hsorted⟩ := List.pairwise_cons.1 hsorted
    obtain ⟨hf, -⟩ := List.forall_mem_cons.1 hfrom
    obtain ⟨hlast, hto⟩ := List.forall_mem_cons.1 hto
    cases htouches : f.touches own with
    | true =>
      rw [List.filter_cons_of_pos htouches]
      exact AgreeFrom.foldl_land fs hsorted hnext hlast hto ((h.land hf).from f.finish)
    | false =>
      rw [List.filter_cons_of_neg (by simp [htouches])]
      exact AgreeFrom.foldl_land fs hsorted hnext hlast hto (h.land_left hf htouches)

end Landing

end Dispatcher

namespace Traffic

variable {own : String → Bool} {t t' : Traffic} {es es' : List Errand} {e : Errand} {limit : Nat}

/-- What there is of some hosts is the same in both, and so are the flights that hold leaves of
them. -/
structure Agree (own : String → Bool) (t t' : Traffic) : Prop where
  dispatcher : t.dispatcher.Agree own t'.dispatcher
  flights : t.flights.filter (·.touches own) = t'.flights.filter (·.touches own)

theorem due_filter (t : Traffic) (limit : Nat) (p : Flight → Bool) :
    (t.due limit).filter p
      = ((t.flights.filter p).filter (·.finish ≤ limit)).mergeSort
        fun f g => f.finish ≤ g.finish := by
  rw [due, filter_mergeSort Flight.finish_trans Flight.finish_total, List.filter_comm]

theorem due_le {f : Flight} (h : f ∈ t.due limit) : f.finish ≤ limit :=
  of_decide_eq_true (List.mem_filter.1 (List.mem_mergeSort.1 h)).2

theorem Agree.elapse (h : t.Agree own t') (limit : Nat) :
    (t.elapse limit).Agree own (t'.elapse limit) where
  dispatcher := by
    -- both are compared with the landing of those flights only that touch these hosts
    have hown := fun {d d' : Dispatcher} (t : Traffic) (hd : d.Agree own d') =>
      Dispatcher.AgreeFrom.foldl_land (t.due limit) (Flight.pairwise_finish _)
        (fun _ _ => Nat.zero_le _) (Nat.zero_le limit) (fun _ hf => due_le hf) (hd.from 0)
    have hdue : (t.due limit).filter (·.touches own) = (t'.due limit).filter (·.touches own) := by
      rw [due_filter, due_filter, h.flights]
    have hright := hown t' (.refl own h.dispatcher.symm.apart)
    rw [← hdue] at hright
    exact (hown t h.dispatcher).trans hright.symm
  flights := by
    simp only [Traffic.elapse]
    rw [List.filter_comm, h.flights, List.filter_comm]

theorem Agree.wait (h : t.Agree own t') (ms : Nat) :
    (t.act (.wait ms)).Agree own (t'.act (.wait ms)) := by
  simp only [act, h.dispatcher.now]
  exact h.elapse _

theorem launch_flights (t : Traffic) (es : List Errand) (p : Flight → Bool) :
    (t.launch es).flights.filter p
      = t.flights.filter p
        ++ ((((t.dispatcher.ready es).sorties es).map (·.flight)).filter p).filter
          fun f => !f.calls.isEmpty := by
  rw [launch, List.filter_append, List.filter_comm]

theorem Agree.launch_left (h : t.Agree own t') (hes : ∀ e ∈ es, e.Foreign own) :
    (t.launch es).Agree own t' where
  dispatcher := h.dispatcher.aloft_left hes
  flights := by
    rw [launch_flights, Dispatcher.sorties_touches hes, List.filter_nil, List.append_nil]
    exact h.flights

theorem Agree.launch (h : t.Agree own t') (hes : ∀ e ∈ es, e.Foreign own)
    (hes' : ∀ e ∈ es', e.Foreign own) (he : ∀ k ∈ e.hosts, own k = true) :
    (t.launch (es ++ e :: es')).Agree own (t'.launch [e]) where
  dispatcher := h.dispatcher.aloft hes hes' he
  flights := by
    have hready : (t.dispatcher.ready (es ++ e :: es')).Agree own (t'.dispatcher.ready [e]) :=
      h.dispatcher.noted _ _ _ _
    rw [launch_flights, launch_flights, hready.sorties hes hes' he, h.flights]

/-- The errands of a schedule in the order of their launch. -/
def errands (as : List Act) : List Errand :=
  as.flatMap fun
    | .launch es => es
    | .wait _ => []

/-- A schedule without its errands. -/
def waits (as : List Act) : List Act :=
  as.filter fun
    | .launch _ => false
    | .wait _ => true

/-- As time passes and errands to other hosts are launched, some hosts see only that time passes. -/
theorem Agree.run_left : ∀ (as : List Act) {t t' : Traffic}, (∀ e ∈ errands as, e.Foreign own) →
    t.Agree own t' → (t.run as).Agree own (t'.run (waits as))
  | [], _, _, _, h => h
  | .launch es :: as, _, _, hes, h => by
    rw [errands, List.flatMap_cons, List.forall_mem_append] at hes
    exact Agree.run_left as hes.2 (h.launch_left hes.1)
  | .wait ms :: as, _, _, hes, h => Agree.run_left as hes (h.wait ms)

theorem run_sorties : ∀ (as : List Act) (t : Traffic),
    ∃ later, (t.run as).sorties = t.sorties ++ later ∧ later.map (·.errand) = errands as
  | [], t => ⟨[], (List.append_nil _).symm, rfl⟩
  | .launch es :: as, t => by
    obtain ⟨later, hlater, herrands⟩ := run_sorties as (t.launch es)
    refine ⟨(t.dispatcher.ready es).sorties es ++ later, ?_, ?_⟩
    · rw [← List.append_assoc]
      exact hlater
    · rw [List.map_append, Dispatcher.sorties_errand, herrands]
      rfl
  | .wait ms :: as, t => run_sorties as (t.act (.wait ms))

theorem errands_waits (as : List Act) : errands (waits as) = [] := by
  refine List.flatMap_eq_nil_iff.2 fun a ha => ?_
  cases a with
  | launch es => simp [waits] at ha
  | wait ms => rfl

theorem waits_sorties (as : List Act) (t : Traffic) : (t.run (waits as)).sorties = t.sorties := by
  obtain ⟨later, hlater, herrands⟩ := run_sorties (waits as) t
  rw [errands_waits, List.map_eq_nil_iff] at herrands
  rw [hlater, herrands, List.append_nil]

/-- An errand has its place among the sorties, and goes up as it does alone. -/
theorem Agree.launch_sorties (h : t.Agree own t') (hes : ∀ e ∈ es, e.Foreign own)
    (he : ∀ k ∈ e.hosts, own k = true) (es' : List Errand) :
    ∃ (earlier later : List Sortie) (s s' : Sortie),
      (t.launch (es ++ e :: es')).sorties = t.sorties ++ earlier ++ s :: later
        ∧ earlier.length = es.length ∧ (t'.launch [e]).sorties = t'.sorties ++ [s']
        ∧ s.errand = e ∧ s'.errand = e ∧ s.flight = s'.flight := by
  let d := t.dispatcher.ready (es ++ e :: es')
  let d' := t'.dispatcher.ready [e]
  have hready : d.Agree own d' := h.dispatcher.noted _ _ _ _
  refine ⟨d.sorties es, ((d.launchAll es).1.launch e).1.sorties es', ⟨(d.launchAll es).1, e⟩,
    ⟨d', e⟩, ?_, ?_, rfl, rfl, rfl, ((hready.launchAll_left es hes).launch he).2⟩
  · rw [Traffic.launch, Dispatcher.sorties_append, List.append_assoc]
    rfl
  · rw [← List.length_map (·.errand), Dispatcher.sorties_errand]

/-- Whatever the other errands of a schedule do, an errand ends as it does alone, with the same
result after the same time, and at the end of the schedule the breakers of its hosts are the same.
-/
theorem run_isolated (t : Traffic) (hlocal : t.dispatcher.transport.Local)
    (before after : List Act) (es es' : List Errand) (e : Errand)
    (hapart : (errands (before ++ .launch (es ++ e :: es') :: after)).Pairwise Errand.Apart) :
    let beside := t.run (before ++ .launch (es ++ e :: es') :: after)
    let alone := t.run (waits before ++ .launch [e] :: waits after)
    (∃ s s' : Sortie,
      beside.sorties[t.sorties.length + (errands before ++ es).length]? = some s
        ∧ alone.sorties[t.sorties.length]? = some s'
        ∧ s.errand = e ∧ s'.errand = e
        ∧ s.flight.result = s'.flight.result ∧ s.flight.elapsed = s'.flight.elapsed)
      ∧ ∀ key ∈ e.hosts,
        beside.dispatcher.guard.map (·.find? key) = alone.dispatcher.guard.map (·.find? key) := by
  intro beside alone
  have hall : errands (before ++ .launch (es ++ e :: es') :: after)
      = (errands before ++ es) ++ e :: (es' ++ errands after) := by
    simp [errands]
  rw [hall] at hapart
  obtain ⟨hearlier, hlater⟩ := Errand.foreign_of_apart hapart
  obtain ⟨hbefore, hes⟩ := List.forall_mem_append.1 hearlier
  obtain ⟨hes', hafter⟩ := List.forall_mem_append.1 hlater
  have hown : ∀ k ∈ e.hosts, e.hosts.contains k = true := fun k hk => by simpa using hk
  -- before and after its launch the hosts of the errand see only that time passes
  have hstart : (t.run before).Agree (e.hosts.contains ·) (t.run (waits before)) :=
    Agree.run_left before hbefore ⟨.refl _ hlocal, rfl⟩
  have hend := Agree.run_left after hafter (hstart.launch hes hes' hown)
  have hbeside : beside = ((t.run before).launch (es ++ e :: es')).run after := by
    simp only [beside, run, List.foldl_append, List.foldl_cons, act]
  have halone : alone = ((t.run (waits before)).launch [e]).run (waits after) := by
    simp only [alone, run, List.foldl_append, List.foldl_cons, act]
  refine ⟨?_, fun key hkey => ?_⟩
  · obtain ⟨l₁, hl₁, hlength⟩ := run_sorties before t
    obtain ⟨l₂, hl₂, -⟩ := run_sorties after ((t.run before).launch (es ++ e :: es'))
    obtain ⟨earlier, later, s, s', hs, hearlier, hs', herrand, herrand', hflight⟩ :=
      hstart.launch_sorties hes hown es'
    refine ⟨s, s', ?_, ?_, herrand, herrand', by rw [hflight], by rw [hflight]⟩
    · have hplace : t.sorties.length + (errands before ++ es).length
          = (t.sorties ++ l₁ ++ earlier).length := by
        simp only [List.length_append, ← hlength, List.length_map, hearlier, Nat.add_assoc]
      rw [hbeside, hl₂, hs, hl₁, hplace, List.append_assoc, List.getElem?_append_right (le_refl _),
        Nat.sub_self]
      rfl
    · rw [halone, waits_sorties, hs', waits_sorties, List.getElem?_concat_length]
  · rw [hbeside, halone]
    exact hend.dispatcher.guard.find? (hown key hkey)

/-- Of two partners one dies, which opens the breaker of its host, while the other still waits for
an answer. -/
theorem run_isolated_fatal :
    let t := new fatal (some ⟨1, 1000, 1000⟩)
    let beside := t.run [.wait 5, .launch [fatalErrand ["b"], fatalErrand ["a", "c"]], .wait 100]
    let alone := t.run [.wait 5, .launch [fatalErrand ["a", "c"]], .wait 100]
    beside.sorties.map (fun s => (s.flight.elapsed, s.flight.fault?)) = [(20, some 25), (50, none)]
      ∧ (∃ s s' : Sortie, beside.sorties[1]? = some s ∧ alone.sorties[0]? = some s'
        ∧ s.errand = fatalErrand ["a", "c"] ∧ s'.errand = fatalErrand ["a", "c"]
        ∧ s.flight.result = s'.flight.result ∧ s.flight.elapsed = s'.flight.elapsed)
      ∧ ∀ key ∈ (fatalErrand ["a", "c"]).hosts,
        beside.dispatcher.guard.map (·.find? key) = alone.dispatcher.guard.map (·.find? key) :=
  ⟨by decide +kernel,
    run_isolated (new fatal (some ⟨1, 1000, 1000⟩)) (fun _ _ _ _ _ => rfl) [.wait 5] [.wait 100]
      [fatalErrand ["b"]] [] (fatalErrand ["a", "c"]) (by decide +kernel)⟩

end Traffic

end AuctionGate
