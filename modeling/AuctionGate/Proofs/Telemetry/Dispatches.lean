import AuctionGate.Proofs.Breaker.Told
import AuctionGate.Proofs.Dispatch.Faults
import AuctionGate.Proofs.Telemetry.Ledger
import Mathlib.Data.List.DropRight
import Mathlib.Data.List.Permutation

/-!
# What dispatches add to the metrics

The journal is told of each call as its dispatch ends, and of the errors that the seat lists only
after correlation. The two agree: the counter of errors grows, kind by kind, by the errors that the
seat lists for its calls, the counter of skipped calls by the calls that were never attempted, and
the histogram by one sample a dispatch (`dispatchAll_gains`). A dispatch that fails adds nothing,
and neither do breakers.
-/

namespace AuctionGate

namespace Series

variable (partner : String)

def callErrors (k : PartnerError.Kind) : Series :=
  ⟨.callErrors, [("partner", partner), ("kind", k.name)]⟩

def callsSkipped : Series := ⟨.callsSkipped, [("partner", partner)]⟩

def dispatchDuration : Series := ⟨.dispatchDuration, [("partner", partner)]⟩

end Series

namespace Flight

variable (f : Flight)

def partner : String := f.errand.adapter.name

/-- The calls with what they brought; none if one has died. -/
def brought : List (Call × Settled) :=
  match f.gathered with
  | .ok settled => f.calls.zip settled
  | .error _ => []

/-- What went wrong when answers were read. -/
def readErrors : List PartnerError := (f.errand.adapter.readings f.brought).flatMap (·.2)

/-- The errors that the seat lists for its calls: those behind the errors of building and ahead of
the errors of reading. -/
def failures : List PartnerError :=
  match f.result with
  | .ok seat =>
    if f.calls.isEmpty then []
    else (seat.errors.drop f.buildErrors.length).rdrop f.readErrors.length
  | .error _ => []

/-- How many calls were never attempted. -/
def skipped : Nat := f.brought.countP fun x => !x.2.attempted

/-- How long a dispatch took that did not fail. -/
def durations : List Nat :=
  match f.result with
  | .ok _ => [f.elapsed]
  | .error _ => []

/-- The flights of a partner. -/
def ofPartner (fs : List Flight) (partner : String) : List Flight :=
  fs.filter (·.partner = partner)

/-- The seat of a flight says of its calls what the metrics count. -/
structure Tallies (f : Flight) (seat : SeatBid) : Prop where
  calls : f.brought.map (·.1) = f.calls
  /-- A call that failed has one error of its own. -/
  failures : f.failures.map (·.cause) = f.brought.filterMap (·.2.outcome.error?.map (·.cause))
  errors : f.calls ≠ [] → seat.errors.map (·.cause)
    = f.buildErrors.map (·.cause) ++ f.failures.map (·.cause) ++ f.readErrors.map (·.cause)
  /-- A call is skipped or leaves a trace. -/
  traces : f.errand.debug = true → (f.calls ≠ [] → seat.trace.isSome)
    ∧ f.skipped + (seat.trace.getD []).length = f.calls.length
  sampled : f.durations = [f.elapsed]

end Flight

namespace Journal

/-- The metrics of dispatching read the same. -/
structure Even (j j' : Journal) : Prop where
  read : ∀ s : Series, s.metric ∈ Metric.ofDispatch → j'.ledger.read? s = j.ledger.read? s

/-- What the metrics of dispatching have gained are the calls and the durations of flights. -/
structure Gains (j j' : Journal) (fs : List Flight) : Prop where
  errors : ∀ partner kind, j'.count (.callErrors partner kind) = j.count (.callErrors partner kind)
    + ((Flight.ofPartner fs partner).flatMap (·.failures)).countP (·.kind = kind)
  skipped : ∀ partner, j'.count (.callsSkipped partner) = j.count (.callsSkipped partner)
    + ((Flight.ofPartner fs partner).map (·.skipped)).sum
  durations : ∀ partner, j'.samples (.dispatchDuration partner)
    = j.samples (.dispatchDuration partner)
      ++ (Flight.ofPartner fs partner).flatMap (·.durations)
  failed : (∀ f ∈ fs, ∃ fault, f.result = .error fault) → Even j j'

end Journal

theorem Flight.ofPartner_append (fs fs' : List Flight) (partner : String) :
    ofPartner (fs ++ fs') partner = ofPartner fs partner ++ ofPartner fs' partner :=
  List.filter_append ..

namespace Journal

variable {j j' j'' : Journal} {fs fs' : List Flight} {os : List Occurrence}

section Even

theorem Even.refl (j : Journal) : Even j j := ⟨fun _ _ => rfl⟩

theorem Even.trans (h : Even j j') (h' : Even j' j'') : Even j j'' :=
  ⟨fun s hs => (h'.read s hs).trans (h.read s hs)⟩

theorem even_note (h : ∀ o ∈ os, ∀ e ∈ o.touches, e.1.metric ∉ Metric.ofDispatch) :
    Even j (j.note os) := by
  refine ⟨fun s hs => read?_note_of_ne j fun o ho e he heq => h o ho e he ?_⟩
  rwa [heq]

end Even

section Gains

theorem Even.gains (h : Even j j') : Gains j j' [] where
  errors _ _ := congrArg Ledger.counted (h.read _ (.tail _ (.head _)))
  skipped _ := congrArg Ledger.counted (h.read _ (.tail _ (.tail _ (.head _))))
  durations _ :=
    (congrArg Ledger.sampled (h.read _ (.head _))).trans (List.append_nil _).symm
  failed _ := h

theorem Gains.trans (h : Gains j j' fs) (h' : Gains j' j'' fs') : Gains j j'' (fs ++ fs') where
  errors partner kind := by
    rw [h'.errors, h.errors, Flight.ofPartner_append, List.flatMap_append, List.countP_append,
      Nat.add_assoc]
  skipped partner := by
    rw [h'.skipped, h.skipped, Flight.ofPartner_append, List.map_append, List.sum_append,
      Nat.add_assoc]
  durations partner := by
    rw [h'.durations, h.durations, Flight.ofPartner_append, List.flatMap_append,
      List.append_assoc]
  failed hfs := (h.failed fun f hf => hfs f (List.mem_append_left _ hf)).trans
    (h'.failed fun f hf => hfs f (List.mem_append_right _ hf))

end Gains

end Journal

/-! ## Breakers -/

namespace Registry

variable {r : Registry} {key : String} {now : Nat} {st : Breaker.Step}

theorem allow_unmetered (r : Registry) (key : String) :
    ∀ o ∈ (r.allow key).1.told, ∀ e ∈ o.touches, e.1.metric ∉ Metric.ofDispatch := by
  intro o ho
  rw [allow_told_eq, List.mem_append] at ho
  rcases ho with ho | ho <;> split_ifs at ho
  · cases ho
  · rw [List.mem_singleton.1 ho]
    exact List.forall_mem_nil _
  · rw [List.mem_singleton.1 ho]
    simp [Occurrence.touches, Metric.ofDispatch]
  · cases ho

theorem carry_unmetered :
    ∀ o ∈ (r.carry now key st).told, ∀ e ∈ o.touches, e.1.metric ∉ Metric.ofDispatch := by
  obtain ⟨rest, hrest, htold⟩ := r.carry_told now key st
  intro o ho
  rw [htold, List.mem_append, Option.mem_toList] at ho
  rcases ho with ho | ho
  · obtain ⟨c, -, rfl⟩ := Option.map_eq_some_iff.1 ho
    cases c <;> simp [account, Occurrence.touches, Metric.ofDispatch]
  · have hmoves := hrest o ho
    cases o <;> first | (simp [Occurrence.touches, Metric.ofDispatch]; done) | cases hmoves

end Registry

namespace Dispatcher

open Journal

variable {d : Dispatcher} {e : Errand} {es : List Errand} {f : Flight} {deadline : Deadline}

section Even

theorem even_ask (d : Dispatcher) (r : Http.Request) : Even d.journal (d.ask r).1.journal := by
  unfold ask
  split
  · exact .refl _
  · exact even_note (Registry.allow_unmetered _ _)

theorem even_giveBack (d : Dispatcher) (time : Nat) (l : Leave) (succeeded : Bool) :
    Even d.journal (d.giveBack time l succeeded).journal := by
  unfold giveBack
  split
  · exact .refl _
  · exact even_note Registry.carry_unmetered

theorem even_foldl_giveBack (time : Nat) : ∀ (ls : List Leave) (d : Dispatcher),
    Even d.journal (ls.foldl (fun d l => d.giveBack time l false) d).journal
  | [], _ => .refl _
  | _ :: ls, d => (d.even_giveBack ..).trans (even_foldl_giveBack time ls _)

theorem even_issue (d : Dispatcher) (deadline : Deadline) (i : Nat) (c : Call) :
    Even d.journal (d.issue deadline i c).1.journal := by
  rcases d.issue_cases deadline c with h | ⟨h, hask | ⟨l, hask, h0⟩ | ⟨leave, hask, h0⟩⟩
  · rw [issue_spent h]
    exact .refl _
  · rw [issue_vetoed h hask]
    exact d.even_ask c.request
  · rw [issue_at_once h hask h0]
    exact (d.even_ask c.request).trans (even_giveBack (d.handOver deadline c) ..)
  · rw [issue_out h hask h0]
    exact d.even_ask c.request

theorem even_issueAll (deadline : Deadline) : ∀ (cs : List Call) (d : Dispatcher) (i : Nat),
    Even d.journal (d.issueAll deadline i cs).1.journal
  | [], _, _ => .refl _
  | _ :: cs, d, i => (d.even_issue ..).trans (even_issueAll deadline cs _ (i + 1))

theorem even_launchAll : ∀ (es : List Errand) (d : Dispatcher),
    Even d.journal (d.launchAll es).1.journal
  | [], _ => .refl _
  | _ :: es, _ => (even_issueAll ..).trans (even_launchAll es _)

theorem even_elapse (d : Dispatcher) (limit : Nat) :
    Even d.journal (d.elapse limit).journal := by
  refine Agenda.runSteps_keeps
    (P := fun _ (s : Option Registry × Journal) => Even d.journal s.2)
    (fun {a a' due j s} h _ => h.trans ?_) _ _ _ (.refl _)
  unfold work
  split
  · exact .refl _
  · refine even_note ?_
    cases j with
    | timer => exact Registry.carry_unmetered
    | giveBack => exact Registry.carry_unmetered

end Even

end Dispatcher

/-! ## What is told of calls -/

theorem PartnerError.Kind.name_inj {k k' : Kind} : k.name = k'.name ↔ k = k' := by
  cases k <;> cases k' <;> decide

namespace Occurrence

variable (partner p uri : String) (kind k : PartnerError.Kind) (elapsed : Nat)

theorem hits_callFailed : (callFailed p uri k.name).hits (.callErrors partner kind)
    = if p = partner ∧ k = kind then 1 else 0 := by
  simp [hits, touches, Series.callErrors, List.countP_cons, PartnerError.Kind.name_inj]

theorem hits_callSkipped :
    (callSkipped p).hits (.callsSkipped partner) = if p = partner then 1 else 0 := by
  simp [hits, touches, Series.callsSkipped, List.countP_cons]

theorem samples_dispatchFinished : (dispatchFinished p elapsed).samples (.dispatchDuration partner)
    = if p = partner then [elapsed] else [] := by
  simp only [samples, touches, Series.dispatchDuration, List.filter_cons, Series.mk.injEq,
    List.cons.injEq, Prod.mk.injEq, true_and, and_true, decide_eq_true_eq, List.filter_nil]
  split_ifs <;> rfl

end Occurrence

namespace Adapter

variable (a : Adapter) (partner : String) (kind : PartnerError.Kind) (elapsed : Nat)
  (calls : List (Call × Settled))

theorem sum_toldOfCalls (g : Occurrence → Nat) :
    ((a.toldOfCalls calls elapsed).map g).sum
      = (calls.map fun x => (if x.2.attempted then 0 else g (.callSkipped a.name))
          + x.2.outcome.error?.elim 0
            fun e => g (.callFailed a.name x.1.request.uri.write e.kind.name)).sum
        + g (.dispatchFinished a.name elapsed) := by
  have hcall : ∀ x ∈ calls, ((a.toldOfCall x.1 x.2).map g).sum
      = (if x.2.attempted then 0 else g (.callSkipped a.name)) + x.2.outcome.error?.elim 0
        fun e => g (.callFailed a.name x.1.request.uri.write e.kind.name) := by
    rintro ⟨c, o, _ | _⟩ - <;> cases h : o.error? <;> simp [toldOfCall, h]
  rw [← List.map_congr_left hcall]
  simp [toldOfCalls, List.flatMap_def, List.sum_flatten, List.map_flatten, Function.comp_def]

theorem hits_errors :
    ((a.toldOfCalls calls elapsed).map (·.hits (.callErrors partner kind))).sum
      = if a.name = partner then (calls.filterMap (·.2.outcome.error?)).countP (·.kind = kind)
        else 0 := by
  have hskip : (Occurrence.callSkipped a.name).hits (.callErrors partner kind) = 0 := rfl
  have hend : (Occurrence.dispatchFinished a.name elapsed).hits (.callErrors partner kind) = 0 :=
    rfl
  rw [sum_toldOfCalls, hskip, hend]
  simp only [Occurrence.hits_callFailed, ite_self, Nat.zero_add, Nat.add_zero]
  induction calls with
  | nil => simp
  | cons x calls ih =>
    rw [List.map_cons, List.sum_cons, ih, List.filterMap_cons]
    cases x.2.outcome.error? with
    | none => simp
    | some e =>
      by_cases hp : a.name = partner
      · by_cases hk : e.kind = kind <;> simp [hp, hk, Nat.add_comm]
      · simp [hp]

theorem hits_skipped :
    ((a.toldOfCalls calls elapsed).map (·.hits (.callsSkipped partner))).sum
      = if a.name = partner then calls.countP (fun x => !x.2.attempted) else 0 := by
  have hfail (uri kind : String) :
      (Occurrence.callFailed a.name uri kind).hits (.callsSkipped partner) = 0 := rfl
  have hend : (Occurrence.dispatchFinished a.name elapsed).hits (.callsSkipped partner) = 0 := rfl
  have hnone (e? : Option PartnerError) : (e?.elim 0 fun _ => 0) = 0 := by cases e? <;> rfl
  rw [sum_toldOfCalls, hend]
  simp only [Occurrence.hits_callSkipped, hfail, hnone, Nat.add_zero]
  induction calls with
  | nil => simp
  | cons x calls ih =>
    rw [List.map_cons, List.sum_cons, ih, List.countP_cons]
    by_cases hp : a.name = partner <;> cases x.2.attempted <;> simp [hp, Nat.add_comm]

theorem samples_toldOfCalls :
    (a.toldOfCalls calls elapsed).flatMap (·.samples (.dispatchDuration partner))
      = if a.name = partner then [elapsed] else [] := by
  have hcall : ∀ x ∈ calls, (a.toldOfCall x.1 x.2).flatMap (·.samples (.dispatchDuration partner))
      = [] := by
    refine fun x _ => List.flatMap_eq_nil_iff.2 fun o ho => ?_
    rcases List.mem_append.1 ho with ho | ho
    · split_ifs at ho
      · cases ho
      · rw [List.mem_singleton.1 ho]
        rfl
    · obtain ⟨e, -, rfl⟩ := Option.map_eq_some_iff.1 (Option.mem_toList.1 ho)
      rfl
  rw [toldOfCalls, List.flatMap_append, List.flatMap_assoc, List.flatMap_eq_nil_iff.2 hcall,
    List.flatMap_singleton, Occurrence.samples_dispatchFinished]
  rfl

end Adapter

/-! ## What a flight brought -/

namespace Gathering

variable {n : Nat} {cs : List Completion} {settled : List Settled}

theorem place_length : ∀ {cs : List Completion} {slots slots' : List (Option Settled)},
    place slots cs = .ok slots' → slots'.length = slots.length
  | [], _, _, h => congrArg List.length (Except.ok.inj h).symm
  | ⟨_, .died⟩ :: _, _, _, h => nomatch h
  | ⟨i, .settled s⟩ :: cs, slots, _, h => by
    have h : place (slots.set i (some s)) cs = .ok _ := h
    rw [place_length h, List.length_set]

theorem filled_length : ∀ {slots : List (Option Settled)} {settled : List Settled} {i : Nat},
    filled i slots = .ok settled → settled.length = slots.length
  | [], _, _, h => congrArg List.length (Except.ok.inj h).symm
  | none :: _, _, _, h => nomatch h
  | some s :: slots, settled, i, h => by
    rw [filled] at h
    rcases hrest : filled (i + 1) slots with fault | rest <;> rw [hrest] at h
    · cases h
    · rw [← Except.ok.inj h, List.length_cons, List.length_cons, filled_length hrest]

theorem gather_length (h : gather n cs = .ok settled) : settled.length = n := by
  rw [gather] at h
  rcases hplaced : place (List.replicate n none) cs with fault | slots <;> rw [hplaced] at h
  · cases h
  · rw [filled_length h, place_length hplaced, List.length_replicate]

end Gathering

/-- The errors of calls stand behind those of building and ahead of those of reading. -/
theorem Correlation.failures_correlate (requested : IdSet) (calls : List CallReport)
    (bidFor : List String) (buildErrors readErrors : List PartnerError) :
    ((correlate requested calls bidFor buildErrors readErrors).drop buildErrors.length).rdrop
        readErrors.length
      = (calls.filterMap (·.error)).map (·.tagged (failed requested calls)) := by
  have hlength : (readErrors.map (·.tagged (silent requested calls bidFor))).length
      = readErrors.length := List.length_map _
  rw [correlate, List.append_assoc, List.drop_left' (List.length_map _), ← hlength,
    List.rdrop_append_length]

namespace Flight

variable {f : Flight} {seat : SeatBid} {settled : List Settled}

theorem brought_of_gathered (h : f.gathered = .ok settled) : f.brought = f.calls.zip settled := by
  rw [brought, h]

/-- A flight with calls has a seat exactly if none of them has died. -/
theorem result_seat (hne : f.calls ≠ []) : f.result = .ok seat ↔
    (∃ settled, f.gathered = .ok settled) ∧ seat = f.errand.adapter.seat f.errand.auction
      f.buildErrors f.errand.debug f.brought := by
  have hempty : ¬ f.calls.isEmpty = true := fun h => hne (List.isEmpty_iff.1 h)
  rw [result, if_neg hempty]
  rcases h : f.gathered with fault | settled
  · simp [Except.map]
  · simp [Except.map, brought_of_gathered h, eq_comm]

theorem brought_nil (h : f.calls = []) : f.brought = [] := by
  unfold brought
  rw [h]
  split <;> rfl

theorem brought_calls (h : f.result = .ok seat) : f.brought.map (·.1) = f.calls := by
  by_cases hne : f.calls = []
  · rw [brought_nil hne, hne]
    rfl
  · obtain ⟨⟨settled, hg⟩, -⟩ := (result_seat hne).1 h
    rw [brought_of_gathered hg]
    exact List.map_fst_zip (Nat.le_of_eq (Gathering.gather_length hg).symm)

/-- The errors of calls as the seat lists them, put down to the impressions of those that
failed. -/
theorem failures_eq (hne : f.calls ≠ []) (h : f.result = .ok seat) :
    ∃ ids, f.failures = (f.brought.filterMap (·.2.outcome.error?)).map (·.tagged ids) := by
  have hempty : ¬ f.calls.isEmpty = true := fun h => hne (List.isEmpty_iff.1 h)
  obtain ⟨-, rfl⟩ := (result_seat hne).1 h
  refine ⟨Correlation.failed f.errand.auction.impressionIds
    (f.brought.map fun x => ⟨x.1.impressionIds, x.2.outcome.error?⟩), ?_⟩
  simp only [failures, h, if_neg hempty, Adapter.seat]
  refine (Correlation.failures_correlate ..).trans ?_
  rw [List.filterMap_map]
  rfl

theorem causes_failures (h : f.result = .ok seat) :
    f.failures.map (·.cause) = f.brought.filterMap (·.2.outcome.error?.map (·.cause)) := by
  by_cases hne : f.calls = []
  · rw [failures, h, brought_nil hne, hne]
    rfl
  · obtain ⟨ids, hids⟩ := failures_eq hne h
    rw [hids, List.map_map, ← List.map_filterMap]
    rfl

/-- Every call was skipped or attempted. -/
theorem skipped_add_attempted (f : Flight) :
    f.skipped + (f.brought.filter (·.2.attempted)).length = f.brought.length := by
  have hlen := List.length_eq_countP_add_countP (·.2.attempted) (l := f.brought)
  rw [← List.countP_eq_length_filter, skipped, Nat.add_comm]
  simpa using hlen.symm

theorem tallies (h : f.result = .ok seat) : f.Tallies seat where
  calls := brought_calls h
  failures := causes_failures h
  errors hne := by
    rw [causes_failures h, ((result_seat hne).1 h).2, Adapter.seat, Correlation.causes_correlate,
      List.filterMap_map, List.map_append, List.map_append, List.map_filterMap]
    rfl
  traces hdebug := by
    have hlen := congrArg List.length (brought_calls h)
    rw [List.length_map] at hlen
    by_cases hne : f.calls = []
    · refine ⟨fun hne' => absurd hne hne', ?_⟩
      rw [result, hne] at h
      rw [skipped, brought_nil hne, hne, ← Except.ok.inj h]
      rfl
    · rw [((result_seat hne).1 h).2, Adapter.seat, hdebug, ← hlen, ← f.skipped_add_attempted]
      exact ⟨fun _ => rfl, congrArg (f.skipped + ·) (List.length_map _)⟩
  sampled := by rw [durations, h]

theorem nothing_of_error {fault : DispatchFault} (h : f.result = .error fault) :
    f.failures = [] ∧ f.skipped = 0 ∧ f.durations = [] := by
  refine ⟨by rw [failures, h], ?_, by rw [durations, h]⟩
  by_cases hne : f.calls = []
  · rw [skipped, brought_nil hne]
    rfl
  · rcases hg : f.gathered with fault' | settled
    · rw [skipped, brought, hg]
      rfl
    · rw [(result_seat hne).2 ⟨⟨settled, hg⟩, rfl⟩] at h
      cases h

end Flight

/-! ## What a flight adds -/

namespace Flight

open Journal

variable {f : Flight} {seat : SeatBid}

theorem ofPartner_single (f : Flight) (partner : String) :
    ofPartner [f] partner = if f.partner = partner then [f] else [] := by
  rw [ofPartner, List.filter_singleton]
  split_ifs <;> simp_all

theorem countP_failures (h : f.result = .ok seat) (kind : PartnerError.Kind) :
    f.failures.countP (·.kind = kind)
      = (f.brought.filterMap (·.2.outcome.error?)).countP (·.kind = kind) := by
  have hcauses := congrArg (List.countP (·.2 = kind)) (causes_failures h)
  rw [← List.map_filterMap, List.countP_map, List.countP_map] at hcauses
  exact hcauses

/-- A flight that has not failed adds its calls and one duration. -/
theorem gains_toldOfCalls (j : Journal) (h : f.result = .ok seat) :
    Gains j (j.note (f.errand.adapter.toldOfCalls f.brought f.elapsed)) [f] where
  errors partner kind := by
    rw [count_note _ _ (by rfl), Adapter.hits_errors, ofPartner_single, ← countP_failures h]
    show _ + (if f.partner = partner then _ else _) = _
    split_ifs <;> simp
  skipped partner := by
    rw [count_note _ _ (by rfl), Adapter.hits_skipped, ofPartner_single]
    show _ + (if f.partner = partner then _ else _) = _
    split_ifs <;> simp [skipped]
  durations partner := by
    rw [samples_note _ _ (by rfl), Adapter.samples_toldOfCalls, ofPartner_single]
    show _ ++ (if f.partner = partner then _ else _) = _
    split_ifs <;> simp [(tallies h).sampled]
  failed hfault := by
    obtain ⟨fault, hfault⟩ := hfault f List.mem_cons_self
    rw [h] at hfault
    cases hfault

/-- A flight that has failed adds nothing. -/
theorem gains_of_error {fault : DispatchFault} {j j' : Journal} (h : f.result = .error fault)
    (heven : Even j j') : Gains j j' [f] := by
  obtain ⟨hfailures, hskipped, hdurations⟩ := nothing_of_error h
  refine ⟨fun partner kind => ?_, fun partner => ?_, fun partner => ?_, fun _ => heven⟩
  · rw [heven.gains.errors, ofPartner_single]
    split_ifs <;> simp [ofPartner, hfailures]
  · rw [heven.gains.skipped, ofPartner_single]
    split_ifs <;> simp [ofPartner, hskipped]
  · rw [heven.gains.durations, ofPartner_single]
    split_ifs <;> simp [ofPartner, hdurations]

end Flight

namespace Dispatcher

open Journal Flight

variable {d : Dispatcher} {e : Errand} {es : List Errand} {f : Flight}

theorem note_append (j : Journal) (os os' : List Occurrence) :
    j.note (os ++ os') = (j.note os).note os' := by
  simp [note]

/-- What the journal is told of a flight with calls. -/
theorem gains_told (j : Journal) (hne : f.calls ≠ []) : Gains j (j.note f.told) [f] := by
  rcases hg : f.gathered with fault | settled
  · have hresult : f.result = .error fault := by
      rw [result, if_neg fun h => hne (List.isEmpty_iff.1 h), hg]
      rfl
    refine gains_of_error hresult (even_note fun o ho => ?_)
    rw [told, hg, List.mem_singleton] at ho
    rw [ho]
    exact List.forall_mem_nil _
  · have htold : f.told = f.errand.adapter.toldOfCalls f.brought f.elapsed := by
      rw [told, hg, brought_of_gathered hg]
    rw [htold]
    exact gains_toldOfCalls j ((result_seat hne).2 ⟨⟨settled, hg⟩, rfl⟩)

theorem gains_land (d : Dispatcher) (hne : f.calls ≠ []) :
    Gains d.journal (d.land f).journal [f] := by
  rw [land_eq]
  exact ((d.even_elapse f.finish).trans (even_foldl_giveBack ..)).gains.trans (gains_told _ hne)

theorem gains_foldl_land : ∀ (fs : List Flight) (d : Dispatcher), (∀ f ∈ fs, f.calls ≠ []) →
    Gains d.journal (fs.foldl land d).journal fs
  | [], d, _ => (Even.refl d.journal).gains
  | f :: fs, d, h => (gains_land d (h f List.mem_cons_self)).trans
    (gains_foldl_land fs _ fun g hg => h g (List.mem_cons_of_mem f hg))

/-- What the journal is told of an errand without calls. -/
theorem gains_toldIfEmpty (j : Journal) (d : Dispatcher) (e : Errand)
    (h : (d.launch e).2.calls = []) : Gains j (j.note e.toldIfEmpty) [(d.launch e).2] := by
  have hcalls : (e.adapter.build e.auction).1 = [] := h
  have helapsed : (d.launch e).2.elapsed = 0 := by
    rw [elapsed, launch_finish_nil h]
    exact Nat.sub_self _
  have hresult : (d.launch e).2.result = .ok (Adapter.emptySeat (d.launch e).2.buildErrors) := by
    rw [result, h]
    rfl
  have htold : e.toldIfEmpty
      = (if (e.adapter.build e.auction).2.isEmpty then [.nothingBuilt e.adapter.name] else [])
        ++ e.adapter.toldOfCalls (d.launch e).2.brought (d.launch e).2.elapsed := by
    rw [brought_nil h, helapsed]
    show (if (e.adapter.build e.auction).1.isEmpty then _ else _) = _
    rw [hcalls]
    rfl
  rw [htold, note_append]
  refine (even_note fun o ho => ?_).gains.trans (gains_toldOfCalls _ hresult)
  split_ifs at ho
  · rw [List.mem_singleton.1 ho]
    exact List.forall_mem_nil _
  · cases ho

theorem gains_ready : ∀ (es : List Errand) (j : Journal) (d : Dispatcher),
    Gains j (j.note (es.flatMap Errand.toldIfEmpty))
      ((d.launchAll es).2.filter (·.calls.isEmpty))
  | [], j, _ => (Even.refl j).gains
  | e :: es, j, d => by
    have hrest := gains_ready es (j.note e.toldIfEmpty) (d.launch e).1
    rw [List.flatMap_cons, note_append]
    show Gains _ _ (((d.launch e).2 :: ((d.launch e).1.launchAll es).2).filter _)
    by_cases h : (d.launch e).2.calls = []
    · rw [List.filter_cons_of_pos (by simpa using h)]
      exact (gains_toldIfEmpty j d e h).trans hrest
    · rw [List.filter_cons_of_neg (by simpa using h)]
      have htold : e.toldIfEmpty = [] := if_neg fun hnil => h (List.isEmpty_iff.1 hnil)
      rw [htold] at hrest ⊢
      exact hrest

theorem back_attempted {deadline : Deadline} {c : Call} {s : Settled}
    (h : (d.back deadline c).2 = .settled s) : s.attempted = true := by
  unfold back Reaction.cut at h
  split at h
  · rcases hending : (d.reaction deadline c).ending with o | _ <;> rw [hending] at h <;> cases h
    rfl
  · cases h
    rfl

theorem issue_attempted {deadline : Deadline} {i : Nat} {c : Call} {s : Settled}
    (h : (d.issue deadline i c).2.ended = .settled s) :
    (s.attempted = false ↔ deadline.time ≤ d.now)
      ∧ (s.attempted = false → s.outcome = .timeout) := by
  rcases Nat.lt_or_ge d.now deadline.time with hlt | hle
  · have hattempted : s.attempted = true := by
      rcases hask : (d.ask c.request).2 with _ | leave
      · rw [issue_vetoed hlt hask] at h
        cases h
        rfl
      · rw [(issue_back hlt hask i).2] at h
        exact back_attempted h
    rw [hattempted]
    exact ⟨iff_of_false nofun (Nat.not_le.2 hlt), nofun⟩
  · rw [issue_spent hle] at h
    cases h
    exact ⟨iff_of_true rfl hle, fun _ => rfl⟩

/-- A call is not attempted exactly if the deadline has passed, and then it has timed out. -/
theorem brought_unattempted (hf : f ∈ (d.launchAll es).2) {x : Call × Settled}
    (hx : x ∈ f.brought) : (x.2.attempted = false ↔ f.errand.deadline.time ≤ d.now)
      ∧ (x.2.attempted = false → x.2.outcome = .timeout) := by
  obtain ⟨before, hnow, e, -, rfl⟩ := exists_launch hf
  rcases hg : (before.launch e).2.gathered with fault | settled
  · rw [brought, hg] at hx
    cases hx
  · have hended : ∀ a ∈ (before.launch e).2.airborne, a.ended ≠ .died := fun a ha hdied => by
      rw [gathered_died ⟨a, ha, hdied⟩] at hg
      cases hg
    obtain ⟨settled', hg', -, hentry⟩ := gathered_settled before e hended
    obtain rfl := Except.ok.inj (hg'.symm.trans hg)
    rw [brought_of_gathered hg] at hx
    obtain ⟨j, hj⟩ := List.mem_iff_getElem?.1 hx
    obtain ⟨hcall, hsettled⟩ := List.getElem?_zip_eq_some.1 hj
    have hturn : ∃ t, (before.turnsOf e)[j]? = some t := by
      have hlen := congrArg List.length (turns_calls e.deadline (e.adapter.build e.auction).1
        before 0)
      rw [List.length_map] at hlen
      have hlt : j < (before.launch e).2.calls.length := (List.getElem?_eq_some_iff.1 hcall).1
      exact ⟨_, List.getElem?_eq_getElem (hlen.symm ▸ hlt)⟩
    obtain ⟨t, ht⟩ := hturn
    obtain ⟨s, hs, hend⟩ := hentry j t ht
    obtain rfl := Option.some.inj (hs.symm.trans hsettled)
    have htnow : t.1.now = d.now :=
      (turns_now e.deadline _ before 0 t (List.mem_of_getElem? ht)).trans hnow
    exact htnow ▸ issue_attempted hend

/-- The flights in the order in which the metrics hear of them. -/
def tallied (d : Dispatcher) (es : List Errand) : List Flight :=
  (d.launchAll es).2.filter (·.calls.isEmpty) ++ d.landings es

theorem tallied_perm (d : Dispatcher) (es : List Errand) :
    (d.tallied es).Perm (d.launchAll es).2 :=
  ((List.mergeSort_perm ..).append_left _).trans (List.filter_append_perm ..)

theorem gains_tallied (d : Dispatcher) (es : List Errand) :
    Gains d.journal (d.dispatchAll es).1.journal (d.tallied es) := by
  have hready : Gains d.journal (d.ready es).journal _ := gains_ready es d.journal d
  have haloft : Even (d.ready es).journal (d.aloft es).journal := even_launchAll es (d.ready es)
  have hland := gains_foldl_land (d.landings es) (d.aloft es) fun f hf => by
    have hcalls := (List.mem_filter.1 (List.mem_mergeSort.1 hf)).2
    simpa using hcalls
  rw [dispatchAll_eq]
  have hend := hland.trans
    (even_elapse _ ((d.landings es).foldl land (d.aloft es)).now).gains
  have hall := (hready.trans haloft.gains).trans hend
  rwa [List.append_nil, List.append_nil] at hall

/-- How the metrics grow with errands that are done side by side. -/
structure Meters (d : Dispatcher) (es : List Errand) : Prop where
  results : (d.dispatchAll es).2 = (d.launchAll es).2.map fun f => (f.result, f.elapsed)
  order : (d.tallied es).Perm (d.launchAll es).2
  gains : d.journal.Gains (d.dispatchAll es).1.journal (d.tallied es)
  /-- A call is never attempted if the deadline has passed, and is then listed as timed out. -/
  late : ∀ f ∈ (d.launchAll es).2, ∀ x ∈ f.brought,
    (x.2.attempted = false ↔ f.errand.deadline.time ≤ d.now)
      ∧ (x.2.attempted = false → x.2.outcome.error?.map (·.cause) = some ("Timed out", .timeout))
  seats : ∀ (f : Flight) (seat : SeatBid), f.result = .ok seat → f.Tallies seat
  failed : ∀ (f : Flight) (fault : DispatchFault), f.result = .error fault →
    f.failures = [] ∧ f.skipped = 0 ∧ f.durations = []
  /-- The metrics grow at once when a dispatch with calls lands. -/
  landed : ∀ f : Flight, f.calls ≠ [] → d.journal.Gains (d.land f).journal [f]

/-- Whatever dispatches are done side by side, and whatever their calls bring, the metrics gain what
the seats say. Of a dispatch that does not fail the errors are counted that its seat lists for its
calls, by their kinds, and its calls that were never attempted, each of which is listed as timed
out; in debugging all other calls have a trace. It is sampled once, with or without calls. A
dispatch that fails is neither counted nor sampled. -/
theorem dispatchAll_gains (d : Dispatcher) (es : List Errand) : Meters d es where
  results := dispatchAll_flights d es
  order := tallied_perm d es
  gains := gains_tallied d es
  late f hf x hx := by
    obtain ⟨hlate, htimeout⟩ := brought_unattempted hf hx
    refine ⟨hlate, fun h => ?_⟩
    rw [htimeout h]
    rfl
  seats _ _ := tallies
  failed _ _ := nothing_of_error
  landed _ := gains_land d

/-- A transport that answers, refuses or dies by the path of a request. -/
def fickle : Dispatcher where
  transport := fun _ r _ =>
    if r.uri.path = "/none" then ⟨some 10, .outcome (.response ⟨204, [], []⟩)⟩
    else if r.uri.path = "/bad" then ⟨some 20, .outcome (.response ⟨400, [], []⟩)⟩
    else ⟨some 5, .fault⟩
  now := 100

/-- A partner whose calls go to these paths. -/
def callsTo (partner : String) (paths : List String) (deadline : Nat) : Errand where
  adapter :=
    { name := partner
      build := fun _ => (paths.map fun path =>
        ⟨⟨⟨"POST"⟩, ⟨none, none, path, none⟩, [], []⟩, [path]⟩, [])
      read := fun _ _ => ([], []) }
  auction := ⟨"r", paths.map fun path => ⟨path, []⟩, []⟩
  deadline := ⟨deadline⟩
  debug := true

/-- Of the dispatches of one partner one has an error, one comes too late for both of its calls and
one has no call; that of the other partner fails. -/
theorem dispatchAll_gains_assorted :
    let es := [callsTo "p" ["/none", "/bad"] 200, callsTo "p" ["/none", "/bad"] 100,
      callsTo "p" [] 200, callsTo "q" ["/die"] 200]
    let journal := (fickle.dispatchAll es).1.journal
    journal.count (.callErrors "p" .badInput) = 1 ∧ journal.count (.callErrors "p" .timeout) = 2
      ∧ journal.count (.callsSkipped "p") = 2 ∧ journal.samples (.dispatchDuration "p") = [0, 0, 20]
      ∧ journal.count (.callErrors "q" .generic) = 0
      ∧ journal.samples (.dispatchDuration "q") = []
      ∧ ∃ (f : Flight) (seat : SeatBid), (fickle.dispatchAll es).2[0]? = some (f.result, f.elapsed)
        ∧ f.result = .ok seat ∧ f.Tallies seat ∧ f.failures.map (·.kind) = [.badInput] := by
  intro es journal
  obtain ⟨hresults, -, hgains, -, htallies, -, -⟩ := dispatchAll_gains fickle es
  let f := (fickle.launch (callsTo "p" ["/none", "/bad"] 200)).2
  have hresult : (fickle.dispatchAll es).2[0]? = some (f.result, f.elapsed) := by
    rw [hresults]
    rfl
  have hok : ∃ seat, f.result = .ok seat := by
    have hsome : f.result.toOption.isSome = true := by cbv
    rcases hf : f.result with fault | seat
    · rw [hf] at hsome
      cases hsome
    · exact ⟨seat, rfl⟩
  obtain ⟨seat, hseat⟩ := hok
  refine ⟨(hgains.errors _ _).trans ?_, (hgains.errors _ _).trans ?_, (hgains.skipped _).trans ?_,
    (hgains.durations _).trans ?_, (hgains.errors _ _).trans ?_, (hgains.durations _).trans ?_,
    f, seat, hresult, hseat, htallies f seat hseat, ?_⟩ <;> cbv

end Dispatcher

end AuctionGate
