import AuctionGate.Dispatch.Flight
import Mathlib.Tactic.SplitIfs

/-!
# Who is blamed by a dispatch

Correlation puts an error down to a part of the requested impressions, whatever the adapter said of
it before. A dispatch without calls does not correlate, and there the adapter's own word stands. So
the errors of a seat keep to the request exactly when a call was built or the adapter kept to it.
-/

namespace AuctionGate

/-- The error concerns no impression in particular, or some of those requested. -/
def PartnerError.Within (requested : IdSet) (e : PartnerError) : Prop :=
  ∀ ids, e.impressionIds = some ids → (∃ id, id ∈ ids) ∧ ∀ id ∈ ids, id ∈ requested

theorem PartnerError.within_of_none {requested : IdSet} {e : PartnerError}
    (h : e.impressionIds = none) : e.Within requested := by
  intro ids hids
  simp [h] at hids

theorem PartnerError.tagged_within {requested ids : IdSet} (e : PartnerError)
    (h : ∀ id ∈ ids, id ∈ requested) : (e.tagged ids).Within requested := by
  intro ids' hids
  simp only [tagged] at hids
  split_ifs at hids with hempty
  obtain rfl := Option.some.inj hids
  refine ⟨?_, h⟩
  rcases hl : ids.toList with _ | ⟨id, rest⟩
  · simp [IdSet.isEmpty, hl] at hempty
  · exact ⟨id, show id ∈ ids.toList by simp [hl]⟩

namespace Correlation

/-- Each category puts its errors down to a part of the request. -/
theorem correlate_within (requested : IdSet) (calls : List CallReport) (bidFor : List String)
    (buildErrors readErrors : List PartnerError) :
    ∀ e ∈ correlate requested calls bidFor buildErrors readErrors, e.Within requested := by
  intro e he
  simp only [correlate, List.mem_append, List.mem_map] at he
  obtain (⟨e', -, rfl⟩ | ⟨e', -, rfl⟩) | ⟨e', -, rfl⟩ := he <;>
    exact e'.tagged_within fun id hid => (IdSet.mem_filter.1 hid).1

end Correlation

/-- Without calls the errors of building are passed on as they are. -/
theorem Adapter.emptySeat_within {requested : IdSet} {buildErrors : List PartnerError} :
    (∀ e ∈ (emptySeat buildErrors).errors, e.Within requested) ↔
      ∀ e ∈ buildErrors, e.Within requested := by
  rcases buildErrors with _ | ⟨e, es⟩
  · simpa [emptySeat] using PartnerError.within_of_none rfl
  · simp [emptySeat]

theorem Flight.result_within {f : Flight} {seat : SeatBid} (h : f.result = .ok seat) :
    (∀ e ∈ seat.errors, e.Within f.errand.auction.impressionIds) ↔
      f.calls ≠ [] ∨ ∀ e ∈ f.buildErrors, e.Within f.errand.auction.impressionIds := by
  unfold result at h
  split_ifs at h with hcalls
  · obtain rfl := Except.ok.inj h
    rw [Adapter.emptySeat_within]
    simp [List.isEmpty_iff.1 hcalls]
  · have hne : f.calls ≠ [] := fun hnil => hcalls (List.isEmpty_iff.2 hnil)
    refine iff_of_true ?_ (.inl hne)
    rcases hg : f.gathered with fault | settled <;> rw [hg] at h
    · simp [Except.map] at h
    · obtain rfl := Except.ok.inj h
      exact Correlation.correlate_within _ _ _ _ _

namespace Dispatcher

/-- Issuing calls does not change what was built. -/
theorem launchAll_built (d : Dispatcher) (es : List Errand) :
    (d.launchAll es).2.map (fun f => (f.errand, f.calls, f.buildErrors)) =
      es.map fun e => (e, e.adapter.build e.auction) := by
  induction es generalizing d with
  | nil => rfl
  | cons e es ih =>
    simp only [launchAll, List.map_cons, ih]
    rfl

theorem dispatchAll_results (d : Dispatcher) (es : List Errand) :
    ∃ d', (d.dispatchAll es).2 = (launchAll d' es).2.map fun f => (f.result, f.elapsed) :=
  ⟨_, rfl⟩

/-- A dispatch that ends well blames only what was requested, on every exit but that without
calls, and there exactly if the adapter does. -/
theorem dispatchAll_errors_within {d : Dispatcher} {es : List Errand} {i elapsed : Nat}
    {e : Errand} {seat : SeatBid} (he : es[i]? = some e)
    (hr : (d.dispatchAll es).2[i]? = some (.ok seat, elapsed)) :
    (∀ err ∈ seat.errors, err.Within e.auction.impressionIds) ↔
      (e.adapter.build e.auction).1 ≠ [] ∨
        ∀ err ∈ (e.adapter.build e.auction).2, err.Within e.auction.impressionIds := by
  obtain ⟨d', hd'⟩ := d.dispatchAll_results es
  rw [hd', List.getElem?_map, Option.map_eq_some_iff] at hr
  obtain ⟨f, hf, hres⟩ := hr
  have hbuilt : (f.errand, f.calls, f.buildErrors) = (e, e.adapter.build e.auction) := by
    have := congrArg (·[i]?) (d'.launchAll_built es)
    simpa [hf, he] using this
  obtain ⟨rfl, hbuild⟩ := Prod.mk.inj hbuilt
  rw [← hbuild]
  exact Flight.result_within (Prod.mk.inj hres).1

def ghostError : PartnerError := ⟨"no endpoint", .generic, some (.ofList ["ghost"])⟩

/-- An adapter builds these calls, and blames a ghost. -/
def haunted (impressions : List Impression) (calls : List Call) : Errand where
  adapter := ⟨"haunted", fun _ => (calls, [ghostError]), fun _ _ => ([], [])⟩
  auction := ⟨"r", impressions, []⟩
  deadline := ⟨0⟩
  debug := false

def idle : Dispatcher := { transport := fun _ _ _ => ⟨none, .fault⟩ }

def someCall : Call := ⟨⟨⟨"POST"⟩, ⟨none, none, "/", none⟩, [], []⟩, ["1"]⟩

/-- With a call, the ghost is not blamed. -/
theorem dispatchAll_errors_within_call :
    let e := haunted [⟨"1", []⟩] [someCall]
    ∃ seat elapsed, (idle.dispatchAll [e]).2[0]? = some (.ok seat, elapsed) ∧
      ∀ err ∈ seat.errors, err.Within e.auction.impressionIds := by
  intro e
  let f : Flight := ⟨e, 0, [someCall], [ghostError],
    [⟨0, 0, .settled ⟨.timeout, false⟩, none⟩]⟩
  have hcomp : f.completions = [⟨0, .settled ⟨.timeout, false⟩⟩] := by
    simp [f, Flight.completions]
  have hr : (idle.dispatchAll [e]).2[0]? = some (f.result, f.elapsed) := rfl
  have hres : f.result = .ok ⟨[], none,
      [ghostError.tagged .empty, ⟨"Timed out", .timeout, some (.ofList ["1"])⟩]⟩ := by
    simp only [Flight.result, Flight.gathered, hcomp]
    rfl
  rw [hres] at hr
  exact ⟨_, _, hr, (dispatchAll_errors_within rfl hr).2 (.inl (List.cons_ne_nil _ _))⟩

/-- Without calls the ghost is blamed. -/
theorem dispatchAll_blames_ghost :
    let e := haunted [] []
    ∃ seat elapsed err, (idle.dispatchAll [e]).2[0]? = some (.ok seat, elapsed) ∧
      err ∈ seat.errors ∧ ¬ err.Within e.auction.impressionIds := by
  intro e
  refine ⟨_, _, _, rfl, .head _, fun h => ?_⟩
  have := (h _ rfl).2 "ghost"
  revert this
  decide

end Dispatcher

end AuctionGate
