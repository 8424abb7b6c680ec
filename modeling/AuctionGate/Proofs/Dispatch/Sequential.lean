import AuctionGate.Proofs.Dispatch.Categories
import AuctionGate.Proofs.Dispatch.Gathering
import AuctionGate.Proofs.Dispatch.Launch

/-!
# A dispatch as if its calls came one after the other

An intake takes the calls of a dispatch one after the other, in the order in which they were built,
and keeps after each one what it brought. Calls that are out at the same time come back in some
order, but what a dispatch makes of them is what the intake holds in the end
(`result_sequential`).
-/

namespace AuctionGate

/-- What went wrong with a call by its outcome, if anything did. -/
def Outcome.faultKind? : Outcome → Option PartnerError.Kind
  | .response r =>
    if r.status = 200 then none
    else if r.status = 204 then none
    else if r.status = 400 then some .badInput
    else some .badServerResponse
  | .timeout => some .timeout
  | .failure ⟨.connectTimeout, _⟩ => some .timeout
  | .failure ⟨.circuitOpen, _⟩ => some .generic
  | .failure ⟨.other, _⟩ => some .generic

/-- What the calls of a dispatch have brought so far. -/
structure Intake where
  bids : List Bid := []
  readErrors : List PartnerError := []
  reports : List CallReport := []
  traces : List Trace := []
  /-- The answers that the adapter has read, with their calls. -/
  reads : List (Call × Http.Response) := []

namespace Intake

variable (a : Adapter)

/-- The adapter reads the answer of a call. -/
def read (k : Intake) (c : Call) (r : Http.Response) : Intake :=
  { k with
    bids := k.bids ++ (a.read c r).1
    readErrors := k.readErrors ++ (a.read c r).2
    reads := k.reads ++ [(c, r)] }

def report (k : Intake) (c : Call) (e : Option PartnerError) : Intake :=
  { k with reports := k.reports ++ [⟨c.impressionIds, e⟩] }

def trace (k : Intake) (c : Call) (s : Settled) : Intake :=
  if s.attempted then { k with traces := k.traces ++ [Trace.of c s.outcome] } else k

def enter (k : Intake) (cs : Call × Settled) : Intake :=
  let k := k.trace cs.1 cs.2
  match cs.2.outcome with
  | .response r =>
    if r.status = 200 then (k.read a cs.1 r).report cs.1 none
    else if r.status = 204 then k.report cs.1 none
    else k.report cs.1 cs.2.outcome.error?
  | _ => k.report cs.1 cs.2.outcome.error?

def enterAll (k : Intake) (calls : List (Call × Settled)) : Intake := calls.foldl (enter a) k

/-- The partner's result, once all calls are in. -/
def close (k : Intake) (auction : Auction) (buildErrors : List PartnerError) (debug : Bool) :
    SeatBid where
  bids := k.bids
  trace := if debug then some k.traces else none
  errors := Correlation.correlate auction.impressionIds k.reports (k.bids.map (·.impressionId))
    buildErrors k.readErrors

end Intake

namespace Outcome

variable {r : Http.Response}

/-- A call yields one error, of the kind that its outcome calls for, unless it was answered. -/
theorem kind_error? (o : Outcome) : o.error?.map (·.kind) = o.faultKind? := by
  rcases o with r | ⟨_ | _ | _, message⟩ | _
  · simp only [error?, faultKind?]
    by_cases h200 : r.status = 200
    · simp [h200]
    · by_cases h204 : r.status = 204
      · simp [h204]
      · simp only [h200, h204, or_self, if_false, Option.map_some]
        split_ifs <;> rfl
  all_goals rfl

theorem error?_answered (h : r.status = 200 ∨ r.status = 204) : (response r).error? = none := by
  simp only [error?, if_pos h]

end Outcome

/-- The answers with a body to read, with their calls. -/
def answers (calls : List (Call × Settled)) : List (Call × Http.Response) :=
  calls.filterMap fun cs =>
    match cs.2.outcome with
    | .response r => if r.status = 200 then some (cs.1, r) else none
    | _ => none

namespace Intake

variable {a : Adapter}

theorem enter_eq (k : Intake) (cs : Call × Settled) :
    k.enter a cs =
      { bids := k.bids ++ (answers [cs]).flatMap fun x => (a.read x.1 x.2).1
        readErrors := k.readErrors ++ (answers [cs]).flatMap fun x => (a.read x.1 x.2).2
        reports := k.reports ++ [⟨cs.1.impressionIds, cs.2.outcome.error?⟩]
        traces := k.traces ++ ([cs].filter (·.2.attempted)).map fun x => Trace.of x.1 x.2.outcome
        reads := k.reads ++ answers [cs] } := by
  obtain ⟨c, outcome, attempted⟩ := cs
  rcases outcome with r | f | _
  · by_cases h200 : r.status = 200
    · cases attempted <;>
        simp [enter, trace, read, report, answers, h200, Outcome.error?_answered (.inl h200)]
    · by_cases h204 : r.status = 204
      · cases attempted <;>
          simp [enter, trace, report, answers, h204, Outcome.error?_answered (.inr h204)]
      · cases attempted <;> simp [enter, trace, report, answers, h200, h204]
  all_goals cases attempted <;> simp [enter, trace, report, answers]

theorem enterAll_eq (k : Intake) (calls : List (Call × Settled)) :
    k.enterAll a calls =
      { bids := k.bids ++ (answers calls).flatMap fun x => (a.read x.1 x.2).1
        readErrors := k.readErrors ++ (answers calls).flatMap fun x => (a.read x.1 x.2).2
        reports := k.reports ++ calls.map fun cs => ⟨cs.1.impressionIds, cs.2.outcome.error?⟩
        traces := k.traces ++ (calls.filter (·.2.attempted)).map fun x => Trace.of x.1 x.2.outcome
        reads := k.reads ++ answers calls } := by
  induction calls generalizing k with
  | nil => simp [enterAll, answers]
  | cons cs calls ih =>
    have hcons : answers (cs :: calls) = answers [cs] ++ answers calls :=
      List.filterMap_append (l := [cs])
    have hfilter : (cs :: calls).filter (·.2.attempted)
        = [cs].filter (·.2.attempted) ++ calls.filter (·.2.attempted) :=
      List.filter_append [cs] calls
    rw [enterAll, List.foldl_cons, enter_eq]
    refine (ih _).trans ?_
    simp only [hcons, hfilter, List.flatMap_append, List.map_append, List.append_assoc,
      List.map_cons, List.singleton_append]

end Intake

namespace Adapter

/-- The adapter reads each answer with a body once, and nothing else. -/
theorem readings_eq (a : Adapter) (calls : List (Call × Settled)) :
    a.readings calls = (answers calls).map fun x => a.read x.1 x.2 := by
  rw [readings, answers, List.map_filterMap]
  refine List.filterMap_congr fun cs _ => ?_
  rcases cs with ⟨c, ⟨r | f | _, attempted⟩⟩
  · by_cases h200 : r.status = 200 <;> simp [Outcome.readable?, h200]
  · rfl
  · rfl

theorem seat_eq_close (a : Adapter) (auction : Auction) (buildErrors : List PartnerError)
    (debug : Bool) (calls : List (Call × Settled)) :
    a.seat auction buildErrors debug calls
      = (({} : Intake).enterAll a calls).close auction buildErrors debug := by
  rw [Intake.enterAll_eq, seat, readings_eq]
  simp only [Intake.close, traces, List.flatMap_map, List.nil_append]

end Adapter

namespace Flight

/-- The result of a dispatch whose calls come back in this order. -/
def resultAfter (f : Flight) (cs : List Completion) : Except DispatchFault SeatBid :=
  (Gathering.gather f.calls.length cs).map fun settled =>
    f.errand.adapter.seat f.errand.auction f.buildErrors f.errand.debug (f.calls.zip settled)

/-- The calls of a flight, of which there are some, bring these, each once, at any times and in
any order. -/
structure Brings (f : Flight) (settled : List Settled) : Prop where
  calls : f.calls ≠ []
  length : settled.length = f.calls.length
  airborne : (f.airborne.map fun a => Completion.mk a.index a.ended).Perm
    (Gathering.arrivals settled)

variable {f : Flight} {settled : List Settled} {cs : List Completion}

theorem Brings.completions (h : f.Brings settled) :
    f.completions.Perm (Gathering.arrivals settled) :=
  ((List.mergeSort_perm ..).map _).trans h.airborne

theorem Brings.resultAfter (h : f.Brings settled) (hcs : cs.Perm (Gathering.arrivals settled)) :
    f.resultAfter cs = .ok ((({} : Intake).enterAll f.errand.adapter (f.calls.zip settled)).close
      f.errand.auction f.buildErrors f.errand.debug) := by
  rw [Flight.resultAfter, ← h.length, Gathering.gather_of_perm hcs, ← Adapter.seat_eq_close]
  rfl

theorem Brings.result (h : f.Brings settled) : f.result = f.resultAfter f.completions := by
  have hne : ¬ f.calls.isEmpty = true := fun hnil => h.calls (List.isEmpty_iff.1 hnil)
  rw [Flight.result, if_neg hne]
  rfl

/-- Whatever the order in which calls come back, a dispatch makes of them what it would make of
them one after the other. The adapter reads each answer with status 200 once, and all bids stand
in the order of the calls. Every other call, but one answered with status 204, yields one error
of its own kind; errors are correlated in the order of the calls. A trace is kept of every call
that was attempted, if asked for. -/
theorem result_sequential (h : f.Brings settled) :
    let calls := f.calls.zip settled
    let a := f.errand.adapter
    let readErrors := (answers calls).flatMap fun x => (a.read x.1 x.2).2
    let seat := (({} : Intake).enterAll a calls).close f.errand.auction f.buildErrors
      f.errand.debug
    (f.result = .ok seat
      ∧ (∀ cs : List Completion, cs.Perm (Gathering.arrivals settled) →
        f.resultAfter cs = .ok seat)
      ∧ ∀ (d : Dispatcher) (es : List Errand) (i : Nat), (d.launchAll es).2[i]? = some f →
        (d.dispatchAll es).2[i]? = some (.ok seat, f.elapsed))
    ∧ a.readings calls = (answers calls).map (fun x => a.read x.1 x.2)
    ∧ seat.bids = (answers calls).flatMap (fun x => (a.read x.1 x.2).1)
    ∧ (∀ x ∈ calls, x.2.outcome.error?.map (·.kind) = x.2.outcome.faultKind?)
    ∧ seat.errors = Correlation.correlate f.errand.auction.impressionIds
        (calls.map fun x => ⟨x.1.impressionIds, x.2.outcome.error?⟩)
        (seat.bids.map (·.impressionId)) f.buildErrors readErrors
    ∧ seat.errors.map (·.kind) = f.buildErrors.map (·.kind)
        ++ calls.filterMap (·.2.outcome.faultKind?) ++ readErrors.map (·.kind)
    ∧ seat.trace = if f.errand.debug then
        some ((calls.filter (·.2.attempted)).map fun x => Trace.of x.1 x.2.outcome)
      else none := by
  intro calls a readErrors seat
  have hresult : f.result = .ok seat := h.result.trans (h.resultAfter h.completions)
  have hintake := Intake.enterAll_eq (a := a) {} calls
  have hbids : seat.bids = (answers calls).flatMap fun x => (a.read x.1 x.2).1 := by
    simp only [seat, Intake.close, hintake, List.nil_append]
  have herrors : seat.errors = Correlation.correlate f.errand.auction.impressionIds
      (calls.map fun x => ⟨x.1.impressionIds, x.2.outcome.error?⟩)
      (seat.bids.map (·.impressionId)) f.buildErrors readErrors := by
    simp only [seat, Intake.close, hintake, List.nil_append, readErrors]
  refine ⟨⟨hresult, fun cs hcs => h.resultAfter hcs, fun d es i hf => ?_⟩, a.readings_eq calls,
    hbids, fun x _ => x.2.outcome.kind_error?, herrors, ?_, ?_⟩
  · rw [Dispatcher.dispatchAll_flights, List.getElem?_map, hf, Option.map_some, hresult]
  · have hcauses := congrArg (List.map Prod.snd) (Correlation.causes_correlate
      f.errand.auction.impressionIds
      (calls.map fun x => ⟨x.1.impressionIds, x.2.outcome.error?⟩)
      (seat.bids.map (·.impressionId)) f.buildErrors readErrors)
    rw [← herrors] at hcauses
    simp only [List.map_map, List.map_append, List.filterMap_map, List.map_filterMap] at hcauses
    refine hcauses.trans (congrArg (f.buildErrors.map (·.kind) ++ · ++ readErrors.map (·.kind)) ?_)
    refine List.filterMap_congr fun x _ => ?_
    exact (Option.map_map ..).trans x.2.outcome.kind_error?
  · simp only [seat, Intake.close, hintake, List.nil_append]

end Flight

namespace Dispatcher

variable {d : Dispatcher} {es : List Errand} {f : Flight} {settled : List Settled}

/-- What the calls of a flight ended with is what they bring, each in its place. -/
theorem arrivals_of_launchAll (hf : f ∈ (d.launchAll es).2)
    (hended : f.airborne.map (·.ended) = settled.map .settled) :
    settled.length = f.calls.length
      ∧ f.airborne.map (fun a => Completion.mk a.index a.ended) = Gathering.arrivals settled := by
  have hindex := launchAll_index es hf
  have hlen : settled.length = f.calls.length := by
    have h₁ := congrArg List.length hended
    have h₂ := congrArg List.length hindex
    simp only [List.length_map, List.length_range] at h₁ h₂
    rw [← h₁, h₂]
  refine ⟨hlen, ?_⟩
  calc f.airborne.map (fun a => Completion.mk a.index a.ended)
      = List.zipWith Completion.mk (f.airborne.map (·.index)) (f.airborne.map (·.ended)) := by
        rw [List.zipWith_map, List.zipWith_self]
    _ = List.zipWith Completion.mk (List.range' 0 settled.length) (settled.map .settled) := by
        rw [hindex, hended, ← hlen, List.range_eq_range']
    _ = Gathering.arrivals settled := by
        rw [Gathering.arrivals, List.zipIdx_eq_zip_range', List.zip, List.map_zipWith,
          List.zipWith_comm, List.zipWith_map_left]

/-- A flight of which no call dies brings what its calls ended with. -/
theorem brings_of_launchAll (hf : f ∈ (d.launchAll es).2) (hne : f.calls ≠ [])
    (hended : f.airborne.map (·.ended) = settled.map .settled) : f.Brings settled := by
  obtain ⟨hlen, harrivals⟩ := arrivals_of_launchAll hf hended
  exact ⟨hne, hlen, List.Perm.of_eq harrivals⟩

/-- A partner's answers come after 30, 10 and 20 milliseconds, the last as a failure. -/
def uneven : Dispatcher where
  transport := fun _ r _ =>
    if r.uri.path = "/bids" then ⟨some 30, .outcome (.response ⟨200, [], []⟩)⟩
    else if r.uri.path = "/none" then ⟨some 10, .outcome (.response ⟨204, [], []⟩)⟩
    else ⟨some 20, .outcome (.failure ⟨.connectTimeout, "late"⟩)⟩

def unevenErrand : Errand where
  adapter :=
    { name := "partner"
      build := fun _ => (["/bids", "/none", "/down"].map fun path =>
        ⟨⟨⟨"POST"⟩, ⟨none, none, path, none⟩, [], []⟩, [path]⟩, [])
      read := fun c _ => (c.impressionIds.map fun id => ⟨"b", id, 1, none, none, []⟩,
        [⟨"no currency", .badServerResponse, none⟩]) }
  auction := ⟨"r", ["/bids", "/none", "/down"].map fun path => ⟨path, []⟩, []⟩
  deadline := ⟨100⟩
  debug := true

def unevenSettled : List Settled :=
  [⟨.response ⟨200, [], []⟩, true⟩, ⟨.response ⟨204, [], []⟩, true⟩,
    ⟨.failure ⟨.connectTimeout, "late"⟩, true⟩]

/-- The call that was built first comes back last. -/
theorem result_sequential_uneven :
    let f := (uneven.launch unevenErrand).2
    f.Brings unevenSettled ∧ f.airborne.map (·.finish) = [30, 10, 20]
      ∧ ∃ seat, (uneven.dispatchAll [unevenErrand]).2[0]? = some (.ok seat, f.elapsed)
        ∧ seat.bids.map (·.impressionId) = ["/bids"]
        ∧ seat.errors.map (·.kind) = [.timeout, .badServerResponse]
        ∧ seat.trace = some [⟨"/bids", "", some 200, some ""⟩, ⟨"/none", "", some 204, some ""⟩,
          ⟨"/down", "", none, none⟩] := by
  intro f
  have hf : (uneven.launchAll [unevenErrand]).2[0]? = some f := rfl
  have hb : f.Brings unevenSettled :=
    brings_of_launchAll (List.mem_of_getElem? hf) (List.cons_ne_nil _ _) (by decide)
  obtain ⟨⟨-, -, hdispatch⟩, -, hbids, -, -, hkinds, htrace⟩ := Flight.result_sequential hb
  exact ⟨hb, by decide, _, hdispatch _ _ _ hf, (congrArg _ hbids).trans (by rfl),
    hkinds.trans (by rfl), htrace.trans (by rfl)⟩

end Dispatcher

end AuctionGate
