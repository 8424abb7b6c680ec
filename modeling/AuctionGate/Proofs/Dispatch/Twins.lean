import AuctionGate.Proofs.Breaker.Told
import AuctionGate.Proofs.Dispatch.Balance

/-!
# A dispatcher with breakers and its twin without

A call that its breaker lets through ends as it would without a breaker, and one that is vetoed is
not sent (`Relays`). A breaker that has never opened is closed and lets every call through. So as
long as the journal knows of no opening, a dispatcher with breakers sends what one without them
sends, and its dispatches end alike and at the same time (`Twins`).
-/

namespace AuctionGate

open Breaker

/-- Some breaker opens. -/
def Occurrence.isOpening : Occurrence → Bool
  | breakerOpened .. => true
  | _ => false

theorem Occurrence.isOpening_eq_false {o : Occurrence} :
    o.isOpening = false ↔ ∀ a, o.opens a = false := by
  cases o <;> simp [isOpening, opens]

/-- No breaker has opened. -/
def Journal.Unopened (j : Journal) : Prop := ∀ o ∈ j, o.isOpening = false

instance (j : Journal) : Decidable j.Unopened :=
  inferInstanceAs (Decidable (∀ o ∈ j, o.isOpening = false))

theorem Journal.unopened_note {j : Journal} {os : List Occurrence} :
    (j.note os).Unopened ↔ (∀ o ∈ os, ∀ a, o.opens a = false) ∧ j.Unopened := by
  simp only [Unopened, note, List.forall_mem_append, List.mem_reverse,
    Occurrence.isOpening_eq_false]

namespace Breaker

variable {c : Config} {b : Breaker}

theorem settle_succeeded_closed {p : Permit} (h : b.state = .closed) :
    (b.settle c p true).breaker.state = .closed := by
  rcases p with ⟨_ | _⟩ <;> simp [settle, h, cancel, renew]

theorem fire_closed {t : Timer} (h : b.state = .closed) :
    (b.fire t).breaker.state = .closed := by
  rcases t with ⟨epoch, _ | _⟩ <;> simp only [fire, h] <;> split <;> simp [h]

end Breaker

namespace Registry

/-- Every breaker is closed. -/
def Closed (r : Registry) : Prop := ∀ key, (r.breaker key).state = .closed

variable {r : Registry} {key : String} {now : Nat} {st : Step}

theorem Closed.allow (h : r.Closed) (key : String) :
    (r.allow key).1.registry.Closed ∧ (r.allow key).2 = some ⟨false⟩ := by
  refine ⟨fun k => (r.state_allow key k).trans (h k), ?_⟩
  rw [allow_of_some (allow_closed (h key))]

theorem Closed.carry (h : r.Closed) (hst : st.breaker.state = .closed) :
    (r.carry now key st).registry.Closed := by
  intro k
  by_cases hk : k = key
  · subst hk
    by_cases hknown : r.Knows k
    · rw [breaker_carry_self hknown, hst]
    · have hnew : (r.carry now k st).registry.breaker k = {} := by
        refine not_not.1 fun hne => hknown ?_
        exact knows_carry.1 (knows_of_breaker_ne hne)
      rw [hnew]
  · rw [breaker_carry_of_ne hk]
    exact h k

/-- Of closed breakers a step opens one exactly if the journal is told so. -/
theorem Closed.told (h : r.Closed) (ht : st.Tells (r.breaker key)) :
    (∀ o ∈ (r.carry now key st).told, ∀ a, o.opens a = false) ↔ st.breaker.state = .closed := by
  have hopens : (∀ o ∈ (r.carry now key st).told, ∀ a, o.opens a = false)
      ↔ st.change.bind Change.transition? ≠ some .opened := by
    constructor
    · exact fun hall hc => carry_opens.1 (fun o ho => hall o ho key) ⟨rfl, hc⟩
    · exact fun hne o ho a => carry_opens.2 (fun hc => hne hc.2) o ho
  rw [hopens]
  unfold Step.Tells at ht
  have hclosed := h key
  cases hc : st.change.bind Change.transition? with
  | none =>
    rw [hc] at ht
    simp [ht, hclosed]
  | some t =>
    rw [hc] at ht
    cases t with
    | opened => simp [ht.2]
    | halfOpened => exact absurd (hclosed.symm.trans ht.1) (by decide)
    | closed => exact absurd (hclosed.symm.trans ht.1) (by decide)

/-- So the journal shows whether a step of closed breakers leaves them closed. -/
theorem Closed.unopened_carry {j : Journal} (h : r.Closed) (ht : st.Tells (r.breaker key)) :
    (j.note (r.carry now key st).told).Unopened ↔ st.breaker.state = .closed ∧ j.Unopened :=
  Journal.unopened_note.trans (and_congr_left fun _ => h.told ht)

end Registry

/-- A call as it is without breakers. -/
def Airborne.bare (a : Airborne) : Airborne := { a with leave := none }

def Flight.bare (f : Flight) : Flight := { f with airborne := f.airborne.map (·.bare) }

namespace Dispatcher

variable {d b : Dispatcher} {deadline : Deadline} {q : Http.Request} {i : Nat} {c : Call}

section Relays

/-- A call that is let through ends as it would without a breaker, and is sent alike. One that is
vetoed is not sent. -/
structure Relays (d : Dispatcher) (deadline : Deadline) (i : Nat) (c : Call) : Prop where
  admitted : (d.ask c.request).2.isSome →
    let bare := { d with guard := none }.issue deadline i c
    (d.issue deadline i c).2.ended = bare.2.ended
      ∧ (d.issue deadline i c).2.finish = bare.2.finish
      ∧ (d.issue deadline i c).1.sent = bare.1.sent
  vetoed : (d.ask c.request).2 = none → d.now < deadline.time →
    (d.issue deadline i c).2
        = ⟨i, d.now, .settled ⟨.failure ⟨.circuitOpen, "open circuit"⟩, true⟩, none⟩
      ∧ (d.issue deadline i c).1.sent = d.sent

theorem relays (d : Dispatcher) (deadline : Deadline) (i : Nat) (c : Call) :
    Relays d deadline i c where
  admitted hask := by
    let bare : Dispatcher := { d with guard := none }
    obtain ⟨leave, hleave⟩ := Option.isSome_iff_exists.1 hask
    have hbare : (bare.ask c.request).2 = some none := by rw [ask_unguarded rfl]
    rcases Nat.lt_or_ge d.now deadline.time with h | h
    · obtain ⟨hfinish, hended⟩ := issue_back h hleave i
      obtain ⟨hfinish', hended'⟩ := issue_back (d := bare) h hbare i
      have hsent := issue_sent h i c
      have hsent' := issue_sent (d := bare) h i c
      rw [hleave] at hsent
      rw [hbare] at hsent'
      exact ⟨hended.trans hended'.symm, hfinish.trans hfinish'.symm, hsent.trans hsent'.symm⟩
    · rw [issue_spent h, issue_spent (d := bare) h]
      exact ⟨rfl, rfl, rfl⟩
  vetoed hask h := by
    rw [issue_vetoed h hask]
    exact ⟨rfl, d.ask_sent c.request⟩

end Relays

section Noted

/-- An opening that has been noted stays in the journal. -/
theorem unopened_ask (h : (d.ask q).1.journal.Unopened) : d.journal.Unopened := by
  unfold ask at h
  split at h
  · exact h
  · exact (Journal.unopened_note.1 h).2

theorem unopened_giveBack {time : Nat} {l : Leave} {succeeded : Bool}
    (h : (d.giveBack time l succeeded).journal.Unopened) : d.journal.Unopened := by
  unfold giveBack at h
  split at h
  · exact h
  · exact (Journal.unopened_note.1 h).2

theorem unopened_foldl_giveBack {time : Nat} : ∀ (ls : List Leave) {d : Dispatcher},
    (ls.foldl (fun d l => d.giveBack time l false) d).journal.Unopened → d.journal.Unopened
  | [], _, h => h
  | _ :: ls, _, h => unopened_giveBack (unopened_foldl_giveBack ls h)

theorem unopened_issue (h : (d.issue deadline i c).1.journal.Unopened) : d.journal.Unopened := by
  rcases d.issue_cases deadline c with hlt | ⟨hlt, hask | ⟨l, hask, h0⟩ | ⟨leave, hask, h0⟩⟩
  · rw [issue_spent hlt] at h
    exact h
  · rw [issue_vetoed hlt hask] at h
    exact unopened_ask h
  · rw [issue_at_once hlt hask h0] at h
    exact unopened_ask (unopened_giveBack (d := d.handOver deadline c) h)
  · rw [issue_out hlt hask h0] at h
    exact unopened_ask h

theorem unopened_issueAll : ∀ (cs : List Call) {d : Dispatcher} {i : Nat},
    (d.issueAll deadline i cs).1.journal.Unopened → d.journal.Unopened
  | [], _, _, h => h
  | _ :: cs, _, _, h => unopened_issue (unopened_issueAll cs h)

theorem unopened_launchAll : ∀ (es : List Errand) {d : Dispatcher},
    (d.launchAll es).1.journal.Unopened → d.journal.Unopened
  | [], _, h => h
  | _ :: es, _, h => unopened_issueAll _ (unopened_launchAll es h)

theorem unopened_elapse {limit : Nat} (h : (d.elapse limit).journal.Unopened) :
    d.journal.Unopened := by
  refine Agenda.runSteps_keeps
    (P := fun _ (s : Option Registry × Journal) => s.2.Unopened → d.journal.Unopened)
    (fun {a a' due j s} ih _ hs => ih ?_) _ _ _ id h
  unfold work at hs
  split at hs
  · exact hs
  · exact (Journal.unopened_note.1 hs).2

theorem unopened_landed {f : Flight} (h : (d.land f).journal.Unopened) :
    (f.cancelled.foldl (fun d l => d.giveBack f.finish l false)
      (d.elapse f.finish)).journal.Unopened := by
  rw [land_eq] at h
  exact (Journal.unopened_note.1 h).2

theorem unopened_land {f : Flight} (h : (d.land f).journal.Unopened) : d.journal.Unopened :=
  unopened_elapse (unopened_foldl_giveBack _ (unopened_landed h))

theorem unopened_foldl_land : ∀ (fs : List Flight) {d : Dispatcher},
    (fs.foldl land d).journal.Unopened → d.journal.Unopened
  | [], _, h => h
  | _ :: fs, _, h => unopened_land (unopened_foldl_land fs h)

end Noted

section Twins

/-- A dispatcher whose breakers are closed, and one without breakers that has sent the same. -/
structure Twins (d b : Dispatcher) : Prop where
  transport : b.transport = d.transport
  now : b.now = d.now
  sent : b.sent = d.sent
  bare : b.guard = none
  closed : ∃ r, d.guard = some r ∧ r.Closed

theorem Twins.ask (h : Twins d b) (q : Http.Request) :
    Twins (d.ask q).1 b ∧ (d.ask q).2 = some (some ⟨hostKey q, ⟨false⟩⟩) := by
  obtain ⟨r, hg, hr⟩ := h.closed
  obtain ⟨hguard, hanswer⟩ := ask_guarded hg q
  obtain ⟨hclosed, hleave⟩ := hr.allow (hostKey q)
  rw [hleave] at hanswer
  exact ⟨⟨h.transport.trans (d.ask_transport q).symm, h.now.trans (d.ask_now q).symm,
    h.sent.trans (d.ask_sent q).symm, h.bare, _, hguard, hclosed⟩, hanswer⟩

theorem Twins.giveBack {time : Nat} {l : Leave} {succeeded : Bool} (h : Twins d b)
    (hj : (d.giveBack time l succeeded).journal.Unopened) :
    Twins (d.giveBack time l succeeded) b := by
  obtain ⟨r, hg, hr⟩ := h.closed
  have htold : (d.journal.note (r.settle time l.key l.permit succeeded).told).Unopened := by
    simp only [Dispatcher.giveBack, hg] at hj
    exact hj
  have hclosed := ((hr.unopened_carry (settle_tells ..)).1 htold).1
  exact ⟨h.transport.trans (giveBack_transport ..).symm, h.now.trans (giveBack_now ..).symm,
    h.sent.trans (giveBack_sent ..).symm, h.bare, _, giveBack_guarded hg .., hr.carry hclosed⟩

theorem Twins.foldl_giveBack {time : Nat} : ∀ (ls : List Leave) {d : Dispatcher}, Twins d b →
    (ls.foldl (fun d l => d.giveBack time l false) d).journal.Unopened →
      Twins (ls.foldl (fun d l => d.giveBack time l false) d) b
  | [], _, h, _ => h
  | _ :: ls, _, h, hj => (h.giveBack (unopened_foldl_giveBack ls hj)).foldl_giveBack ls hj

theorem Twins.back (h : Twins d b) (deadline : Deadline) (c : Call) :
    b.back deadline c = d.back deadline c := by
  simp only [Dispatcher.back, reaction, h.transport, h.sent, h.now]

theorem Twins.handOver (h : Twins d b) (deadline : Deadline) (c : Call) :
    Twins (d.handOver deadline c) (b.handOver deadline c) := by
  have hask := (h.ask c.request).1
  have hbare := b.ask_unguarded h.bare c.request
  refine ⟨?_, ?_, ?_, ?_, hask.closed⟩
  · simp only [Dispatcher.handOver, hbare]
    exact hask.transport
  · simp only [Dispatcher.handOver, hbare]
    exact hask.now
  · simp only [Dispatcher.handOver, handed, h.now, h.sent]
  · simp only [Dispatcher.handOver, hbare]
    exact h.bare

theorem Twins.issue (h : Twins d b) (hj : (d.issue deadline i c).1.journal.Unopened) :
    Twins (d.issue deadline i c).1 (b.issue deadline i c).1
      ∧ (b.issue deadline i c).2 = (d.issue deadline i c).2.bare := by
  obtain ⟨hask, hleave⟩ := h.ask c.request
  have hbare : (b.ask c.request).2 = some none := by rw [b.ask_unguarded h.bare]
  have hover := h.handOver deadline c
  rcases d.issue_cases deadline c with hlt | ⟨hlt, hask' | ⟨l, hask', h0⟩ | ⟨leave, hask', h0⟩⟩
  · rw [issue_spent hlt, issue_spent (h.now ▸ hlt)]
    exact ⟨h, by rw [h.now]; rfl⟩
  · rw [hleave] at hask'
    cases hask'
  · rw [issue_at_once hlt hask' h0] at hj ⊢
    rw [issue_out (h.now.symm ▸ hlt) hbare fun _ => rfl, h.back, h0, h.now]
    exact ⟨hover.giveBack hj, rfl⟩
  · rw [issue_out hlt hask' h0, issue_out (h.now.symm ▸ hlt) hbare fun _ => rfl, h.back, h.now]
    exact ⟨hover, rfl⟩

theorem Twins.issueAll : ∀ (cs : List Call) {d b : Dispatcher} (i : Nat), Twins d b →
    (d.issueAll deadline i cs).1.journal.Unopened →
      Twins (d.issueAll deadline i cs).1 (b.issueAll deadline i cs).1
        ∧ (b.issueAll deadline i cs).2 = (d.issueAll deadline i cs).2.map (·.bare)
  | [], _, _, _, h, _ => ⟨h, rfl⟩
  | _ :: cs, _, _, i, h, hj => by
    obtain ⟨hfirst, hair⟩ := h.issue (unopened_issueAll cs hj)
    obtain ⟨hrest, hairs⟩ := hfirst.issueAll cs (i + 1) hj
    exact ⟨hrest, congrArg₂ List.cons hair hairs⟩

theorem Twins.launch {e : Errand} (h : Twins d b) (hj : (d.launch e).1.journal.Unopened) :
    Twins (d.launch e).1 (b.launch e).1 ∧ (b.launch e).2 = (d.launch e).2.bare := by
  obtain ⟨hissued, hair⟩ := h.issueAll (e.adapter.build e.auction).1 0 hj
  refine ⟨hissued, ?_⟩
  simp only [Dispatcher.launch, Flight.bare, h.now, hair]

theorem Twins.launchAll : ∀ (es : List Errand) {d b : Dispatcher}, Twins d b →
    (d.launchAll es).1.journal.Unopened → Twins (d.launchAll es).1 (b.launchAll es).1
      ∧ (b.launchAll es).2 = (d.launchAll es).2.map (·.bare)
  | [], _, _, h, _ => ⟨h, rfl⟩
  | _ :: es, _, _, h, hj => by
    obtain ⟨hfirst, hflight⟩ := h.launch (unopened_launchAll es hj)
    obtain ⟨hrest, hflights⟩ := hfirst.launchAll es hj
    exact ⟨hrest, congrArg₂ List.cons hflight hflights⟩

theorem elapse_unguarded (h : b.guard = none) (limit : Nat) : (b.elapse limit).guard = none :=
  Agenda.runSteps_keeps (P := fun _ (s : Option Registry × Journal) => s.1 = none)
    (fun {a a' due j s} hs _ => by simp only [work, hs]) _ _ _ h

theorem Twins.elapse {limit : Nat} (h : Twins d b) (hj : (d.elapse limit).journal.Unopened) :
    Twins (d.elapse limit) (b.elapse limit) := by
  refine ⟨h.transport, rfl, h.sent, elapse_unguarded h.bare limit, ?_⟩
  refine Agenda.runSteps_keeps
    (P := fun _ (s : Option Registry × Journal) => s.2.Unopened → ∃ r, s.1 = some r ∧ r.Closed)
    (fun {a a' due j s} ih _ hs => ?_) _ _ _ (fun _ => h.closed) hj
  rcases hr : s.1 with _ | r
  · simp only [work, hr] at hs
    obtain ⟨r, hr', -⟩ := ih hs
    rw [hr] at hr'
    cases hr'
  · simp only [work, hr] at hs ⊢
    -- What the journal does not know of afterwards it did not know of before.
    obtain ⟨r', hr', hclosed⟩ := ih (Journal.unopened_note.1 hs).2
    obtain rfl : r = r' := Option.some.inj (hr.symm.trans hr')
    cases j with
    | timer key u =>
      exact ⟨_, rfl, hclosed.carry ((hclosed.unopened_carry (fire_tells ..)).1 hs).1⟩
    | giveBack l succeeded =>
      exact ⟨_, rfl, hclosed.carry ((hclosed.unopened_carry (settle_tells ..)).1 hs).1⟩

theorem bare_finish (f : Flight) : f.bare.finish = f.finish := by
  have hfault : f.bare.fault? = f.fault? := by
    simp only [Flight.fault?, Flight.bare, List.filter_map, List.map_map]
    rfl
  rw [Flight.finish, hfault, Flight.finish]
  simp only [Flight.bare, List.map_map]
  rfl

theorem bare_completions (f : Flight) : f.bare.completions = f.completions := by
  have hsort : (f.airborne.mergeSort fun a b => a.finish ≤ b.finish).map (·.bare)
      = (f.airborne.map (·.bare)).mergeSort fun a b => a.finish ≤ b.finish :=
    List.map_mergeSort fun _ _ _ _ => rfl
  simp only [Flight.completions, Flight.bare, ← hsort, List.map_map]
  rfl

theorem bare_result (f : Flight) : f.bare.result = f.result := by
  simp only [Flight.result, Flight.gathered, bare_completions]
  rfl

theorem bare_cancelled (f : Flight) : f.bare.cancelled = [] := by
  refine List.filterMap_eq_nil_iff.2 fun x hx => ?_
  obtain ⟨a, -, ha⟩ := List.mem_map.1 (Flight.mem_airborne_of_unfinished hx).1
  rw [← ha]
  rfl

theorem Twins.land {f : Flight} (h : Twins d b) (hj : (d.land f).journal.Unopened) :
    Twins (d.land f) (b.land f.bare) := by
  have hgiven := unopened_landed hj
  have hland := (h.elapse (unopened_foldl_giveBack _ hgiven)).foldl_giveBack f.cancelled hgiven
  rw [land_eq, land_eq, bare_finish, bare_cancelled]
  exact ⟨hland.transport, hland.now, hland.sent, hland.bare, hland.closed⟩

theorem Twins.foldl_land : ∀ (fs : List Flight) {d b : Dispatcher}, Twins d b →
    (fs.foldl Dispatcher.land d).journal.Unopened →
      Twins (fs.foldl Dispatcher.land d) ((fs.map (·.bare)).foldl Dispatcher.land b)
  | [], _, _, h, _ => h
  | _ :: fs, _, _, h, hj => (h.land (unopened_foldl_land fs hj)).foldl_land fs hj

theorem Twins.aloft {es : List Errand} (h : Twins d b)
    (hj : (d.aloft es).journal.Unopened) : Twins (d.aloft es) (b.aloft es)
      ∧ ((b.ready es).launchAll es).2 = ((d.ready es).launchAll es).2.map (·.bare) := by
  have hready : Twins (d.ready es) (b.ready es) :=
    ⟨h.transport, h.now, h.sent, h.bare, h.closed⟩
  obtain ⟨hlaunched, hflights⟩ := hready.launchAll es hj
  exact ⟨⟨hlaunched.transport, hlaunched.now, hlaunched.sent, hlaunched.bare, hlaunched.closed⟩,
    hflights⟩

theorem unopened_aloft {es : List Errand} (h : (d.aloft es).journal.Unopened) :
    d.journal.Unopened :=
  (Journal.unopened_note.1 (unopened_launchAll es h)).2

theorem bare_mergeSort (fs : List Flight) :
    (fs.map (·.bare)).mergeSort (fun f g => f.finish ≤ g.finish)
      = (fs.mergeSort fun f g => f.finish ≤ g.finish).map (·.bare) :=
  (List.map_mergeSort fun f _ g _ => by rw [bare_finish, bare_finish]).symm

/-- Errands done side by side end alike and leave both alike. -/
theorem Twins.dispatchAll {es : List Errand} (h : Twins d b)
    (hj : (d.dispatchAll es).1.journal.Unopened) :
    Twins (d.dispatchAll es).1 (b.dispatchAll es).1
      ∧ (b.dispatchAll es).2 = (d.dispatchAll es).2 := by
  rw [dispatchAll_eq] at hj ⊢
  have hlanded := unopened_elapse hj
  obtain ⟨haloft, hflights⟩ := h.aloft (unopened_foldl_land _ hlanded)
  have hlandings : b.landings es = (d.landings es).map (·.bare) := by
    rw [landings, landings, ← (d.peers_ready es).launchAll, ← (b.peers_ready es).launchAll,
      hflights, List.filter_map, ← bare_mergeSort]
    rfl
  have hdown := haloft.foldl_land _ hlanded
  rw [← hlandings] at hdown
  refine ⟨?_, ?_⟩
  · rw [dispatchAll_eq]
    simp only [hdown.now]
    exact hdown.elapse hj
  · rw [dispatchAll_flights, dispatchAll_flights, ← (d.peers_ready es).launchAll,
      ← (b.peers_ready es).launchAll, hflights, List.map_map]
    refine List.map_congr_left fun f _ => ?_
    simp only [Function.comp_apply, bare_result, Flight.elapsed, bare_finish]
    rfl

end Twins

end Dispatcher

end AuctionGate
