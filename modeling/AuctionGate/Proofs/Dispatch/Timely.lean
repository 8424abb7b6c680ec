import AuctionGate.Proofs.Dispatch.Landing
import AuctionGate.Proofs.Dispatch.Sequential

/-!
# Dispatches end by their deadline

Every call of a dispatch comes back by the deadline, whatever the transport does, and so does the
dispatch. Once the deadline has passed no call is issued any more: the transport and the breakers
are left alone, and every call is put down as timed out. Before that every call is handed to the
transport, or vetoed by its breaker, in its turn and with all the time that is left
(`dispatch_within_deadline`).
-/

namespace AuctionGate

namespace Flight

variable {f : Flight} {limit : Nat}

def Within (f : Flight) (start limit : Nat) : Prop :=
  ∀ a ∈ f.airborne, start ≤ a.finish ∧ a.finish ≤ limit

/-- A flight ends with one of its calls, or at once. -/
theorem finish_mem (f : Flight) : f.finish = f.start ∨ ∃ a ∈ f.airborne, a.finish = f.finish := by
  unfold finish
  split
  · rename_i t h
    obtain ⟨a, ha, rfl⟩ := List.mem_map.1 (List.min?_eq_some_iff.1 h).1
    exact .inr ⟨a, List.mem_of_mem_filter ha, rfl⟩
  · refine (foldl_max_mem _ _).imp id fun h => ?_
    obtain ⟨a, ha, hfin⟩ := List.mem_map.1 h
    exact ⟨a, ha, hfin⟩

theorem Within.finish (h : f.Within f.start limit) (hl : f.start ≤ limit) :
    f.start ≤ f.finish ∧ f.finish ≤ limit := by
  rcases f.finish_mem with hf | ⟨a, ha, hf⟩
  · rw [hf]
    exact ⟨Nat.le_refl _, hl⟩
  · rw [← hf]
    exact h a ha

theorem Within.elapsed (h : f.Within f.start limit) (hl : f.start ≤ limit) :
    f.start + f.elapsed = f.finish := by
  have := (h.finish hl).1
  unfold Flight.elapsed
  omega

theorem fault?_eq_none (h : ∀ a ∈ f.airborne, a.ended ≠ .died) : f.fault? = none := by
  have hnil : f.airborne.filter (·.ended = .died) = [] :=
    List.filter_eq_nil_iff.2 fun a ha => by simpa using h a ha
  rw [fault?, hnil]
  rfl

/-- A flight of which no call dies ends with its last call. -/
theorem finish_last (h : ∀ a ∈ f.airborne, a.ended ≠ .died) :
    ∀ a ∈ f.airborne, a.finish ≤ f.finish := by
  intro a ha
  rw [Flight.finish, fault?_eq_none h]
  exact (le_foldl_max _ _).2 _ (List.mem_map_of_mem ha)

theorem Within.exists_last (h : f.Within f.start limit) (hne : f.airborne ≠ []) :
    ∃ a ∈ f.airborne, a.finish = f.finish := by
  rcases f.finish_mem with hf | hf
  · -- It ends as it starts, and so do all its calls, or the one that dies.
    obtain ⟨a, ha⟩ := List.exists_mem_of_ne_nil _ hne
    unfold Flight.finish at hf ⊢
    split at hf
    · rename_i t ht
      obtain ⟨b, hb, rfl⟩ := List.mem_map.1 (List.min?_eq_some_iff.1 ht).1
      exact ⟨b, List.mem_of_mem_filter hb, rfl⟩
    · have hle := (le_foldl_max (f.airborne.map (·.finish)) f.start).2 _ (List.mem_map_of_mem ha)
      rw [hf] at hle ⊢
      exact ⟨a, ha, Nat.le_antisymm hle (h a ha).1⟩
  · exact hf

theorem Brings.seat {settled : List Settled} (h : f.Brings settled) :
    f.result = .ok (f.errand.adapter.seat f.errand.auction f.buildErrors f.errand.debug
      (f.calls.zip settled)) := by
  rw [Adapter.seat_eq_close]
  exact h.result.trans (h.resultAfter h.completions)

end Flight

namespace Dispatcher

variable {d : Dispatcher} {e : Errand} {es : List Errand} {deadline : Deadline} {i : Nat}

theorem issueAll_within (deadline : Deadline) : ∀ (cs : List Call) (d : Dispatcher) (i : Nat),
    ∀ a ∈ (d.issueAll deadline i cs).2, d.now ≤ a.finish ∧ a.finish ≤ max d.now deadline.time
  | [], _, _, _, ha => nomatch ha
  | c :: cs, d, i, a, ha => by
    rcases List.mem_cons.1 ha with rfl | ha
    · exact d.issue_finish deadline i c
    · have hrest := issueAll_within deadline cs (d.issue deadline i c).1 (i + 1) a ha
      rwa [issue_now] at hrest

theorem launch_within (d : Dispatcher) (e : Errand) :
    (d.launch e).2.Within d.now (max d.now e.deadline.time) :=
  issueAll_within e.deadline _ d 0

/-- After the deadline a launch issues nothing. -/
theorem launch_spent (h : e.deadline.time ≤ d.now) : (d.launch e).1 = d :=
  congrArg Prod.fst (issueAll_spent h _ 0)

/-- After the deadline every call of a dispatch is put down as timed out. -/
theorem brings_spent (h : e.deadline.time ≤ d.now) (hne : (e.adapter.build e.auction).1 ≠ []) :
    (d.launch e).2.Brings
      (List.replicate (e.adapter.build e.auction).1.length ⟨.timeout, false⟩) := by
  have hmem : (d.launch e).2 ∈ (d.launchAll [e]).2 := List.mem_cons_self
  refine brings_of_launchAll hmem hne ?_
  rw [show (d.launch e).2.airborne = _ from congrArg Prod.snd (issueAll_spent h _ 0)]
  simp [Function.comp_def]

/-- The seat of calls of which none was attempted. -/
theorem seat_spent (a : Adapter) (auction : Auction) (buildErrors : List PartnerError)
    (debug : Bool) (calls : List Call) :
    let seat := a.seat auction buildErrors debug (calls.map (·, ⟨.timeout, false⟩))
    seat.bids = [] ∧ seat.trace = (if debug then some [] else none)
      ∧ seat.errors.map (·.cause)
        = buildErrors.map (·.cause) ++ List.replicate calls.length ("Timed out", .timeout) := by
  intro seat
  have hread : a.readings (calls.map (·, ⟨.timeout, false⟩)) = [] := by
    simp [Adapter.readings, Outcome.readable?]
  have htraces : Adapter.traces (calls.map (·, ⟨.timeout, false⟩)) = [] := by
    simp [Adapter.traces]
  refine ⟨by simp only [seat, Adapter.seat, hread]; rfl,
    by simp only [seat, Adapter.seat, htraces], ?_⟩
  simp only [seat, Adapter.seat, hread, Correlation.causes_correlate, List.flatMap_nil,
    List.append_nil, List.map_append, List.filterMap_map, List.map_nil]
  simp [Function.comp_def, Outcome.error?, PartnerError.cause]

section Deadline

/-- An errand whose deadline has passed leaves everything as it is, and its calls are put down as
timed out. -/
structure Skips (d : Dispatcher) (e : Errand) : Prop where
  still : (d.launch e).1 = d
  grounded : (d.launch e).2.returns = [] ∧ (d.launch e).2.cancelled = []
  alone : (∀ x ∈ d.agenda.entries, d.now < x.1) →
    ∃ journal, (d.dispatch e).1 = { d with journal }
  elapsed : (d.launch e).2.elapsed = 0
  seat : (e.adapter.build e.auction).1 ≠ [] → ∃ seat, (d.launch e).2.result = .ok seat
    ∧ seat.bids = [] ∧ seat.trace = (if e.debug then some [] else none)
    ∧ seat.errors.map (·.cause) = (e.adapter.build e.auction).2.map (·.cause)
      ++ List.replicate (e.adapter.build e.auction).1.length ("Timed out", .timeout)

/-- A call comes back at once if it is vetoed, and else with the transport's reaction or, if that
has not come by the deadline, as timed out. -/
structure ComesBack (d : Dispatcher) (deadline : Deadline) (c : Call) (a : Airborne) : Prop where
  vetoed : (d.ask c.request).2 = none →
    a.finish = d.now ∧ a.ended = .settled ⟨openCircuit, true⟩
  inTime : (d.ask c.request).2.isSome → ∀ t, (d.reaction deadline c).delay = some t →
    d.now + t ≤ deadline.time →
    a.finish = d.now + t ∧ a.ended = (d.reaction deadline c).ending.ended
  late : (d.ask c.request).2.isSome →
    (∀ t, (d.reaction deadline c).delay = some t → deadline.time < d.now + t) →
    a.finish = deadline.time ∧ a.ended = .settled ⟨.timeout, true⟩

def handedAt (deadline : Deadline) (now : Nat) (cs : List Call) : List Sent :=
  cs.map fun c => ⟨c.request, deadline.time - now⟩

/-- An errand with time left hands over its calls in their order, each once and with all the time
that is left, but those that are vetoed. -/
structure Hands (d : Dispatcher) (e : Errand) : Prop where
  positive : 0 < e.deadline.time - d.now
  calls : (d.turnsOf e).map (·.2) = (e.adapter.build e.auction).1
  now : ∀ x ∈ d.turnsOf e, x.1.now = d.now
  sent : (d.launch e).1.sent = (handedAt e.deadline d.now
    (((d.turnsOf e).filter fun x => (x.1.ask x.2.request).2.isSome).map (·.2))).reverse ++ d.sent
  unguarded : d.guard = none → (d.launch e).1.sent
    = (handedAt e.deadline d.now (e.adapter.build e.auction).1).reverse ++ d.sent
  back : ∀ (j : Nat) (x : Dispatcher × Call), (d.turnsOf e)[j]? = some x →
    ∃ a, (d.launch e).2.airborne[j]? = some a ∧ ComesBack x.1 e.deadline x.2 a

theorem launch_finish (d : Dispatcher) (e : Errand) :
    d.now ≤ (d.launch e).2.finish ∧ (d.launch e).2.finish ≤ max d.now e.deadline.time :=
  (d.launch_within e).finish (Nat.le_max_left ..)

theorem launch_grounded (h : e.deadline.time ≤ d.now) :
    (d.launch e).2.returns = [] ∧ (d.launch e).2.unfinished = [] := by
  have hair : (d.launch e).2.airborne = _ := congrArg Prod.snd (issueAll_spent h _ 0)
  have hgrounded : ∀ a ∈ (d.launch e).2.airborne, a.leave = none ∧ a.finish = d.now := by
    rw [hair]
    intro a ha
    obtain ⟨i, -, rfl⟩ := List.mem_map.1 ha
    exact ⟨rfl, rfl⟩
  constructor
  · refine List.filterMap_eq_nil_iff.2 fun a ha => ?_
    rw [(hgrounded a (List.mem_of_mem_filter ha)).1]
    rfl
  · refine Flight.unfinished_eq_nil fun a ha => ?_
    rw [(hgrounded a ha).2]
    exact (d.launch_finish e).1

theorem launch_elapsed (d : Dispatcher) (e : Errand) :
    d.now + (d.launch e).2.elapsed = (d.launch e).2.finish :=
  (d.launch_within e).elapsed (Nat.le_max_left ..)

/-- An errand without calls is over when it is launched. -/
theorem launch_finish_nil (h : (d.launch e).2.calls = []) : (d.launch e).2.finish = d.now := by
  rcases (d.launch e).2.finish_mem with hfinish | ⟨a, ha, -⟩
  · exact hfinish
  · rw [launch_airborne_nil h] at ha
    cases ha

theorem launch_finish_spent (h : e.deadline.time ≤ d.now) : (d.launch e).2.finish = d.now := by
  have := d.launch_finish e
  omega

theorem foldl_land_still (hidle : ∀ x ∈ d.agenda.entries, d.now < x.1) : ∀ (fs : List Flight),
    (∀ f ∈ fs, f.finish = d.now ∧ f.unfinished = []) → ∀ journal : Journal,
    ∃ journal', fs.foldl land { d with journal } = { d with journal := journal' }
  | [], _, journal => ⟨journal, rfl⟩
  | f :: fs, h, journal => by
    obtain ⟨hfinish, hunfinished⟩ := h f List.mem_cons_self
    have hland : land { d with journal } f = { d with journal := journal.note f.told } := by
      rw [land, hfinish, hunfinished, elapse_of_ahead (d := { d with journal }) hidle]
      rfl
    rw [List.foldl_cons, hland]
    exact foldl_land_still hidle fs (fun g hg => h g (List.mem_cons_of_mem f hg)) _

/-- After the deadline an errand by itself is only noted in the journal. -/
theorem dispatch_spent (h : e.deadline.time ≤ d.now)
    (hidle : ∀ x ∈ d.agenda.entries, d.now < x.1) :
    ∃ journal, (d.dispatch e).1 = { d with journal } := by
  let d₁ := d.ready [e]
  have hlaunch : (d₁.launchAll [e]).1 = d₁ := launch_spent (d := d₁) h
  have hreturns : (d₁.launchAll [e]).2.flatMap (·.returns) = [] := by
    simp only [launchAll, List.flatMap_cons, List.flatMap_nil, List.append_nil]
    exact (launch_grounded (d := d₁) h).1
  have haloft : d.aloft [e] = d₁ := by
    have henrol := enrol_known (fun x (hx : x ∈ d₁.agenda.entries) => hx) []
    rw [List.append_nil] at henrol
    rw [aloft, hlaunch, hreturns, show enrol d.agenda.entries _ _ = _ from henrol]
  have hlandings : ∀ f ∈ d.landings [e], f.finish = d.now ∧ f.unfinished = [] := fun f hf => by
    obtain rfl := List.mem_singleton.1 (mem_landings hf)
    exact ⟨launch_finish_spent h, (launch_grounded h).2⟩
  rw [dispatch, dispatchAll_eq, haloft]
  obtain ⟨journal, hland⟩ := foldl_land_still hidle _ hlandings d₁.journal
  rw [show (d.landings [e]).foldl land d₁ = { d with journal } from hland]
  exact ⟨journal, elapse_of_ahead (d := { d with journal }) hidle⟩

theorem skips (h : e.deadline.time ≤ d.now) : Skips d e where
  still := launch_spent h
  grounded := (launch_grounded h).imp_right Flight.cancelled_of_unfinished
  alone := dispatch_spent h
  elapsed := by
    have := d.launch_elapsed e
    rw [launch_finish_spent h] at this
    omega
  seat hne := by
    have hseat : (d.launch e).2.result = .ok (e.adapter.seat e.auction _ e.debug _) :=
      (brings_spent h hne).seat
    have hzip : (e.adapter.build e.auction).1.zip
        (List.replicate (e.adapter.build e.auction).1.length (⟨.timeout, false⟩ : Settled))
        = (e.adapter.build e.auction).1.map (·, ⟨.timeout, false⟩) := by
      rw [← List.map_const', List.zip, List.zipWith_map_right, List.zipWith_self]
    exact ⟨_, hseat.trans (congrArg (fun l => Except.ok (e.adapter.seat e.auction
      (e.adapter.build e.auction).2 e.debug l)) hzip), seat_spent ..⟩

theorem issue_comesBack (h : d.now < deadline.time) (i : Nat) (c : Call) :
    ComesBack d deadline c (d.issue deadline i c).2 where
  vetoed hask := by
    rw [issue_vetoed h hask]
    exact ⟨rfl, rfl⟩
  inTime hask t ht hle := by
    obtain ⟨leave, hask⟩ := Option.isSome_iff_exists.1 hask
    obtain ⟨hfinish, hended⟩ := issue_back h hask i
    rw [hfinish, hended, back_in_time ht hle]
    exact ⟨rfl, rfl⟩
  late hask hlate := by
    obtain ⟨leave, hask⟩ := Option.isSome_iff_exists.1 hask
    obtain ⟨hfinish, hended⟩ := issue_back h hask i
    rw [hfinish, hended, back_late h hlate]
    exact ⟨by simp only; omega, rfl⟩

theorem launch_sent (h : d.now < e.deadline.time) :
    (d.launch e).1.sent = (handedAt e.deadline d.now
      (((d.turnsOf e).filter fun x => (x.1.ask x.2.request).2.isSome).map (·.2))).reverse
        ++ d.sent := by
  rw [handedAt, List.map_map]
  exact issueAll_sent e.deadline _ d 0 h

theorem launch_sent_unguarded (h : d.now < e.deadline.time) (hguard : d.guard = none) :
    (d.launch e).1.sent
      = (handedAt e.deadline d.now (e.adapter.build e.auction).1).reverse ++ d.sent := by
  have hall : (d.turnsOf e).filter (fun x => (x.1.ask x.2.request).2.isSome) = d.turnsOf e :=
    List.filter_eq_self.2 fun x hx => by
      rw [ask_unguarded (turns_unguarded e.deadline _ d 0 hguard x hx)]
      rfl
  rw [launch_sent h, hall]
  exact congrArg (fun cs => (handedAt e.deadline d.now cs).reverse ++ d.sent) (turns_calls ..)

theorem hands (h : d.now < e.deadline.time) : Hands d e where
  positive := by omega
  calls := turns_calls ..
  now := turns_now e.deadline _ d 0
  sent := launch_sent h
  unguarded := launch_sent_unguarded h
  back j x hx := by
    have hair : (d.launch e).2.airborne = _ := issueAll_eq e.deadline _ d 0
    refine ⟨_, ?_, issue_comesBack ?_ j x.2⟩
    · rw [hair, List.getElem?_map, List.getElem?_zipIdx, ← turnsOf, hx, Nat.zero_add]
      rfl
    · rw [turns_now e.deadline _ d 0 x (List.mem_of_getElem? hx)]
      exact h

/-- A flight of which no call dies ends with its last call, and its result is made of what the
calls ended with. -/
structure Completes (f : Flight) : Prop where
  waits : ∀ a ∈ f.airborne, a.finish ≤ f.finish
  last : f.calls ≠ [] → ∃ a ∈ f.airborne, a.finish = f.finish
  result : f.calls ≠ [] → ∃ settled : List Settled, f.airborne.map (·.ended) = settled.map .settled
    ∧ f.result = .ok (f.errand.adapter.seat f.errand.auction f.buildErrors f.errand.debug
      (f.calls.zip settled))

theorem settled_of_not_died : ∀ (airborne : List Airborne),
    (∀ a ∈ airborne, a.ended ≠ .died) →
      ∃ settled : List Settled, airborne.map (·.ended) = settled.map .settled
  | [], _ => ⟨[], rfl⟩
  | a :: airborne, h => by
    obtain ⟨settled, hs⟩ := settled_of_not_died airborne fun b hb => h b (List.mem_cons_of_mem a hb)
    rcases ha : a.ended with s | _
    · exact ⟨s :: settled, by rw [List.map_cons, List.map_cons, hs, ha]⟩
    · exact absurd ha (h a List.mem_cons_self)

theorem completes (d : Dispatcher) (e : Errand)
    (h : ∀ a ∈ (d.launch e).2.airborne, a.ended ≠ .died) : Completes (d.launch e).2 where
  waits := Flight.finish_last h
  last hne := by
    refine (d.launch_within e).exists_last fun hnil => hne ?_
    have hmem : (d.launch e).2 ∈ (d.launchAll [e]).2 := List.mem_cons_self
    have hindex := launchAll_index [e] hmem
    rw [hnil] at hindex
    exact List.length_eq_zero_iff.1 (List.range_eq_nil.1 hindex.symm)
  result hne := by
    obtain ⟨settled, hs⟩ := settled_of_not_died _ h
    have hmem : (d.launch e).2 ∈ (d.launchAll [e]).2 := List.mem_cons_self
    exact ⟨settled, hs, (brings_of_launchAll hmem hne hs).seat⟩

theorem dispatchAll_now_le {limit : Nat} (hnow : d.now ≤ limit)
    (h : ∀ e ∈ es, e.deadline.time ≤ limit) : (d.dispatchAll es).1.now ≤ limit := by
  rw [dispatchAll_eq]
  show ((d.landings es).foldl land (d.aloft es)).now ≤ limit
  rcases foldl_land_now (d.landings es) (d.aloft es) with heq | ⟨f, hf, heq⟩
  · rw [heq, aloft_now]
    exact hnow
  · obtain ⟨before, hbefore, e, he, rfl⟩ := exists_launch (mem_landings hf)
    have hle := (before.launch_finish e).2
    have := h e he
    rw [heq]
    omega

/-- A dispatch ends by its deadline, or at once if that has passed, whatever the transport does.
Once the deadline has passed its calls are skipped, before that they are handed over, and if none
of them dies it waits for the last one and no longer. The transport is sent nothing else. -/
theorem dispatchAll_within_deadline (d : Dispatcher) (he : es[i]? = some e) :
    let before := (d.launchAll (es.take i)).1
    let f := (before.launch e).2
    (before.now = d.now
      ∧ (d.dispatchAll es).2[i]? = some (f.result, f.elapsed)
      ∧ (d.launchAll (es.take (i + 1))).1 = (before.launch e).1
      ∧ (d.dispatchAll es).1.sent = (d.launchAll es).1.sent)
    ∧ d.now + f.elapsed = f.finish
    ∧ f.finish ≤ max d.now e.deadline.time
    ∧ (∀ limit, d.now ≤ limit → (∀ e ∈ es, e.deadline.time ≤ limit) →
      (d.dispatchAll es).1.now ≤ limit)
    ∧ (e.deadline.time ≤ d.now → Skips before e)
    ∧ (d.now < e.deadline.time → Hands before e)
    ∧ ((∀ a ∈ f.airborne, a.ended ≠ .died) → Completes f) := by
  intro before f
  have hnow : before.now = d.now := launchAll_now (es.take i) d
  have hresult : (d.dispatchAll es).2[i]? = some (f.result, f.elapsed) := by
    rw [dispatchAll_flights, List.getElem?_map, launchAll_getElem?, he]
    rfl
  have hnext : (d.launchAll (es.take (i + 1))).1 = (before.launch e).1 := by
    rw [List.take_add_one, he, Option.toList_some, launchAll_append]
    rfl
  have helapsed := before.launch_elapsed e
  have hfinish := (before.launch_finish e).2
  rw [hnow] at helapsed hfinish
  exact ⟨⟨hnow, hresult, hnext, d.dispatchAll_sent es⟩, helapsed, hfinish,
    fun limit => dispatchAll_now_le, fun h => skips (by rw [hnow]; exact h),
    fun h => hands (by rw [hnow]; exact h), before.completes e⟩

/-- Of two calls one is answered after 10 milliseconds and the other never. -/
def deaf : Dispatcher where
  transport := fun _ r _ =>
    if r.uri.path = "/bids" then ⟨some 10, .outcome (.response ⟨204, [], []⟩)⟩ else ⟨none, .fault⟩

def deafErrand : Errand where
  adapter :=
    { name := "partner"
      build := fun _ => (["/never", "/bids"].map fun path =>
        ⟨⟨⟨"POST"⟩, ⟨none, none, path, none⟩, [], []⟩, [path]⟩, [])
      read := fun _ _ => ([], []) }
  auction := ⟨"r", ["/never", "/bids"].map fun path => ⟨path, []⟩, []⟩
  deadline := ⟨100⟩
  debug := true

/-- The call that is never answered times out at the deadline. -/
theorem dispatchAll_within_deadline_never :
    [deafErrand][0]? = some deafErrand
      ∧ ∃ f : Flight, (deaf.dispatchAll [deafErrand]).2[0]? = some (f.result, f.elapsed)
        ∧ 0 + f.elapsed = f.finish ∧ f.finish ≤ max 0 100
        ∧ f.airborne.map (·.finish) = [100, 10]
        ∧ (deaf.launch deafErrand).1.sent.map (·.timeout) = [100, 100]
        ∧ Completes f := by
  have he : [deafErrand][0]? = some deafErrand := rfl
  obtain ⟨⟨-, hresult, -, -⟩, helapsed, hfinish, -, -, hhands, hcompletes⟩ :=
    dispatchAll_within_deadline deaf he
  have hsent := (hhands (by decide)).unguarded rfl
  exact ⟨he, _, hresult, helapsed, hfinish, by decide, (congrArg _ hsent).trans (by rfl),
    hcompletes (by decide)⟩

end Deadline

end Dispatcher

end AuctionGate
