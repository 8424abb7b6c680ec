import AuctionGate.Proofs.Dispatch.Balance

/-!
# Calls that die

A dispatch joins its calls as they come back, and gives up at the first that has died. So it fails
exactly if the transport dies on one of its calls before that call is cut, whatever the others
bring; it ends at the earliest death, and leaves behind the calls that are still out then. If no
call dies every place is filled, each by its own call, so none is ever missing (`Fares`).

The calls left behind are cancelled, they and no others, and each gives back the leave it has of a
breaker, as one that failed (`Clears`).
-/

namespace AuctionGate

/-- What a call that has come back is for those who gather. -/
def Airborne.completion (a : Airborne) : Completion := ⟨a.index, a.ended⟩

namespace Flight

/-- Joins calls as they come back: what they brought, the time at which that is known, and the
calls that are left when one has died. -/
def join (time : Nat) (slots : List (Option Settled)) :
    List Airborne → Except DispatchFault (List Settled) × Nat × List Airborne
  | [] => (Gathering.filled 0 slots, time, [])
  | a :: as =>
    match a.ended with
    | .died => (.error .callDied, a.finish, as)
    | .settled s => join a.finish (slots.set a.index (some s)) as

/-- Joins all calls of a flight, in the order in which they come back. -/
def joined (f : Flight) (as : List Airborne) :
    Except DispatchFault (List Settled) × Nat × List Airborne :=
  join f.start (List.replicate f.calls.length none) as

variable {f : Flight} {as before after : List Airborne} {a : Airborne}

section Join

/-- What is known when all calls have been joined is what they are gathered to. -/
theorem join_gathers : ∀ (as : List Airborne) (time : Nat) (slots : List (Option Settled)),
    (join time slots as).1
      = (Gathering.place slots (as.map Airborne.completion)).bind (Gathering.filled 0)
  | [], _, _ => rfl
  | a :: as, _, slots => by
    rw [join, List.map_cons, Gathering.place, Airborne.completion]
    cases a.ended with
    | died => rfl
    | settled s => exact join_gathers as a.finish (slots.set a.index (some s))

theorem joined_gathers (f : Flight) (as : List Airborne) :
    (f.joined as).1 = Gathering.gather f.calls.length (as.map Airborne.completion) :=
  join_gathers ..

/-- Calls of which none dies are all joined. -/
theorem join_settled : ∀ {as : List Airborne} (time : Nat) (slots : List (Option Settled)),
    (∀ a ∈ as, a.ended ≠ .died) → as.Pairwise (fun a b => a.finish ≤ b.finish) →
      (∀ a ∈ as, time ≤ a.finish) →
        (join time slots as).2 = ((as.map (·.finish)).foldl max time, [])
  | [], _, _, _, _, _ => rfl
  | a :: as, time, slots, hended, hsorted, htime => by
    obtain ⟨hle, hsorted⟩ := List.pairwise_cons.1 hsorted
    rw [join, List.map_cons, List.foldl_cons, Nat.max_eq_right (htime a List.mem_cons_self)]
    cases ha : a.ended with
    | died => exact absurd ha (hended a List.mem_cons_self)
    | settled s =>
      exact join_settled a.finish _ (fun b hb => hended b (List.mem_cons_of_mem a hb)) hsorted hle

/-- The first call that dies ends the joining. -/
theorem join_died (ha : a.ended = .died) (after : List Airborne) :
    ∀ {before : List Airborne} (time : Nat) (slots : List (Option Settled)),
      (∀ b ∈ before, b.ended ≠ .died) →
        (join time slots (before ++ a :: after)).2 = (a.finish, after)
  | [], _, _, _ => by rw [List.nil_append, join, ha]
  | b :: before, time, slots, h => by
    rw [List.cons_append, join]
    cases hb : b.ended with
    | died => exact absurd hb (h b List.mem_cons_self)
    | settled s => exact join_died ha after _ _ fun b' hb' => h b' (List.mem_cons_of_mem b hb')

theorem split_died (h : ∃ a ∈ as, a.ended = .died) :
    ∃ before a after, as = before ++ a :: after ∧ a.ended = .died
      ∧ ∀ b ∈ before, b.ended ≠ .died := by
  have hfind : (as.find? (·.ended = .died)).isSome := by simpa using h
  obtain ⟨a, ha⟩ := Option.isSome_iff_exists.1 hfind
  obtain ⟨hdied, before, after, hsplit, hbefore⟩ := List.find?_eq_some_iff_append.1 ha
  exact ⟨before, a, after, hsplit, by simpa using hdied, fun b hb => by simpa using hbefore b hb⟩

end Join

section Finish

/-- A flight of which a call dies ends when the first does. -/
theorem finish_first (h : ∃ a ∈ f.airborne, a.ended = .died) :
    (∃ a ∈ f.airborne, a.ended = .died ∧ a.finish = f.finish)
      ∧ ∀ a ∈ f.airborne, a.ended = .died → f.finish ≤ a.finish := by
  have hmem {a : Airborne} (ha : a ∈ f.airborne) (hdied : a.ended = .died) :
      a.finish ∈ (f.airborne.filter (·.ended = .died)).map (·.finish) :=
    List.mem_map_of_mem (List.mem_filter.2 ⟨ha, decide_eq_true hdied⟩)
  obtain ⟨t, ht⟩ : ∃ t, f.fault? = some t := by
    obtain ⟨a, ha, hdied⟩ := h
    refine Option.ne_none_iff_exists'.1 fun hnone => ?_
    rw [fault?, List.min?_eq_none_iff] at hnone
    have := hmem ha hdied
    rw [hnone] at this
    cases this
  have hfinish : f.finish = t := by rw [Flight.finish, ht]
  rw [hfinish]
  obtain ⟨hin, hle⟩ := List.min?_eq_some_iff.1 ht
  obtain ⟨a, ha, hat⟩ := List.mem_map.1 hin
  obtain ⟨ha, hdied⟩ := List.mem_filter.1 ha
  exact ⟨⟨a, ha, of_decide_eq_true hdied, hat⟩, fun b hb hdied' => hle _ (hmem hb hdied')⟩

theorem gathered_died (h : ∃ a ∈ f.airborne, a.ended = .died) : f.gathered = .error .callDied := by
  obtain ⟨a, ha, hdied⟩ := h
  refine Gathering.gather_died _ ⟨a.completion, List.mem_map.2 ⟨a, ?_, rfl⟩, hdied⟩
  exact List.mem_mergeSort.2 ha

/-- In the order in which calls come back a flight ends with the first that died. -/
theorem finish_split (hfirst : a.ended = .died) (hbefore : ∀ b ∈ before, b.ended ≠ .died)
    (has : (before ++ a :: after).Perm f.airborne)
    (hafter : ∀ b ∈ after, a.finish ≤ b.finish) : f.finish = a.finish := by
  have hmem : a ∈ f.airborne := has.mem_iff.1 (List.mem_append_right _ List.mem_cons_self)
  obtain ⟨⟨b, hb, hdied, hfinish⟩, hle⟩ := finish_first ⟨a, hmem, hfirst⟩
  refine Nat.le_antisymm (hle a hmem hfirst) ?_
  rw [← hfinish]
  rcases List.mem_append.1 (has.mem_iff.2 hb) with hb | hb
  · exact absurd hdied (hbefore b hb)
  · rcases List.mem_cons.1 hb with rfl | hb
    · exact Nat.le_refl _
    · exact hafter b hb

/-- Joining the calls of a flight in the order in which they come back ends when the flight ends.
Of those left behind the flight cancels the ones that are still out. -/
theorem joined_ends {limit : Nat} (hwithin : f.Within f.start limit)
    (hlength : f.airborne.length = f.calls.length) (has : as.Perm f.airborne)
    (hsorted : as.Pairwise fun a b => a.finish ≤ b.finish) :
    (f.joined as).2.1 = f.finish
      ∧ ((f.joined as).2.2.filter (f.finish < ·.finish)).Perm (f.unfinished.map (·.2)) := by
  have hout : (as.filter (f.finish < ·.finish)).Perm (f.unfinished.map (·.2)) := by
    rw [unfinished_airborne hlength]
    exact has.filter _
  by_cases hdied : ∃ a ∈ as, a.ended = .died
  · obtain ⟨before, a, after, rfl, ha, hbefore⟩ := split_died hdied
    obtain ⟨-, hrest, hle⟩ := List.pairwise_append.1 hsorted
    have hfinish := finish_split ha hbefore has (List.pairwise_cons.1 hrest).1
    have hnone : before.filter (f.finish < ·.finish) = [] :=
      List.filter_eq_nil_iff.2 fun b hb => by
        have := hle b hb a List.mem_cons_self
        simp only [decide_eq_true_eq]
        omega
    rw [joined, join_died ha after f.start _ hbefore]
    rw [List.filter_append, hnone, List.nil_append,
      List.filter_cons_of_neg (by simp [hfinish])] at hout
    exact ⟨hfinish.symm, hout⟩
  · have hended : ∀ a ∈ f.airborne, a.ended ≠ .died := fun a ha h =>
      hdied ⟨a, has.mem_iff.2 ha, h⟩
    have hnone := unfinished_eq_nil (finish_last hended)
    rw [joined, join_settled f.start _ (fun a ha => hended a (has.mem_iff.1 ha)) hsorted
      fun a ha => (hwithin a (has.mem_iff.1 ha)).1, hnone]
    refine ⟨?_, .nil⟩
    rw [Flight.finish, fault?_eq_none hended]
    exact (has.map _).foldl_eq _

end Finish

end Flight

namespace Dispatcher

variable {d : Dispatcher} {e : Errand} {es : List Errand} {deadline : Deadline} {c : Call}
  {i time : Nat}

/-- The transport dies on a call at a time, before the call is cut. -/
structure Dies (d : Dispatcher) (deadline : Deadline) (c : Call) (time : Nat) : Prop where
  inTime : d.now < deadline.time
  granted : (d.ask c.request).2.isSome
  faults : ∃ delay, d.reaction deadline c = ⟨some delay, .fault⟩ ∧ time = d.now + delay
  uncut : time ≤ deadline.time

section Dies

theorem back_died (h : (d.back deadline c).2 = .died) :
    ∃ delay ≤ deadline.time - d.now, d.reaction deadline c = ⟨some delay, .fault⟩
      ∧ (d.back deadline c).1 = delay := by
  unfold back Reaction.cut at h ⊢
  split at h
  · rename_i t ht
    obtain ⟨hdelay, hle⟩ := Option.filter_eq_some_iff.1 ht
    rcases hr : d.reaction deadline c with ⟨delay, o | _⟩
    · rw [hr] at h
      cases h
    · rw [hr] at hdelay
      exact ⟨t, of_decide_eq_true hle, congrArg (Reaction.mk · .fault) hdelay, rfl⟩
  · cases h

/-- A call dies when and as the transport dies on it. -/
theorem issue_dies (d : Dispatcher) (deadline : Deadline) (i : Nat) (c : Call) (time : Nat) :
    (d.issue deadline i c).2.ended = .died ∧ (d.issue deadline i c).2.finish = time
      ↔ Dies d deadline c time := by
  constructor
  · rintro ⟨hended, hfinish⟩
    rcases Nat.lt_or_ge d.now deadline.time with h | h
    · rcases hask : (d.ask c.request).2 with _ | leave
      · rw [issue_vetoed h hask] at hended
        cases hended
      · obtain ⟨hfinish', hended'⟩ := issue_back h hask i
        rw [hended'] at hended
        obtain ⟨delay, hle, hreaction, hback⟩ := back_died hended
        rw [hfinish', hback] at hfinish
        exact ⟨h, by rw [hask]; rfl, ⟨delay, hreaction, hfinish.symm⟩, by omega⟩
    · rw [issue_spent h] at hended
      cases hended
  · rintro ⟨h, hgranted, ⟨delay, hreaction, rfl⟩, hcut⟩
    obtain ⟨leave, hask⟩ := Option.isSome_iff_exists.1 hgranted
    obtain ⟨hfinish, hended⟩ := issue_back h hask i
    rw [hfinish, hended, back_in_time (by rw [hreaction]) hcut, hreaction]
    exact ⟨rfl, rfl⟩

theorem launch_getElem? (d : Dispatcher) (e : Errand) (j : Nat) :
    (d.launch e).2.airborne[j]?
      = (d.turnsOf e)[j]?.map fun x => (x.1.issue e.deadline j x.2).2 := by
  rw [show (d.launch e).2.airborne = _ from issueAll_eq e.deadline _ d 0, List.getElem?_map,
    List.getElem?_zipIdx, Nat.zero_add, ← turnsOf, Option.map_map]
  rfl

theorem launch_dies (d : Dispatcher) (e : Errand) (time : Nat) :
    (∃ a ∈ (d.launch e).2.airborne, a.ended = .died ∧ a.finish = time)
      ↔ ∃ x ∈ d.turnsOf e, Dies x.1 e.deadline x.2 time := by
  constructor
  · rintro ⟨a, ha, hdied⟩
    obtain ⟨j, hj⟩ := List.mem_iff_getElem?.1 ha
    rw [launch_getElem?, Option.map_eq_some_iff] at hj
    obtain ⟨x, hx, rfl⟩ := hj
    exact ⟨x, List.mem_of_getElem? hx, (issue_dies ..).1 hdied⟩
  · rintro ⟨x, hx, hdies⟩
    obtain ⟨j, hj⟩ := List.mem_iff_getElem?.1 hx
    refine ⟨(x.1.issue e.deadline j x.2).2, List.mem_of_getElem? (i := j) ?_,
      (issue_dies ..).2 hdies⟩
    rw [launch_getElem?, hj]
    rfl

/-- Whatever the order in which the calls of a flight come back, the same is gathered. -/
theorem gather_launch (d : Dispatcher) (e : Errand) {cs : List Completion}
    (hcs : cs.Perm ((d.launch e).2.airborne.map Airborne.completion)) :
    Gathering.gather (d.launch e).2.calls.length cs = (d.launch e).2.gathered := by
  have hcompletions : (d.launch e).2.completions.Perm
      ((d.launch e).2.airborne.map Airborne.completion) := (List.mergeSort_perm ..).map _
  by_cases hdied : ∃ a ∈ (d.launch e).2.airborne, a.ended = .died
  · rw [Flight.gathered_died hdied]
    obtain ⟨a, ha, hended⟩ := hdied
    exact Gathering.gather_died _ ⟨a.completion, hcs.mem_iff.2 (List.mem_map_of_mem ha), hended⟩
  · obtain ⟨settled, hsettled⟩ := settled_of_not_died (d.launch e).2.airborne
      fun a ha h => hdied ⟨a, ha, h⟩
    have hmem : (d.launch e).2 ∈ (d.launchAll [e]).2 := List.mem_cons_self
    obtain ⟨hlen, harrivals⟩ := arrivals_of_launchAll hmem hsettled
    rw [Flight.gathered, ← hlen, Gathering.gather_of_perm (hcs.trans (List.Perm.of_eq harrivals)),
      Gathering.gather_of_perm (hcompletions.trans (List.Perm.of_eq harrivals))]

/-- If no call of a flight dies, every place is filled by what its own call ended with. -/
theorem gathered_settled (d : Dispatcher) (e : Errand)
    (h : ∀ a ∈ (d.launch e).2.airborne, a.ended ≠ .died) :
    ∃ settled, (d.launch e).2.gathered = .ok settled
      ∧ settled.length = (d.launch e).2.calls.length
      ∧ ∀ (j : Nat) (x : Dispatcher × Call), (d.turnsOf e)[j]? = some x →
        ∃ s, settled[j]? = some s ∧ (x.1.issue e.deadline j x.2).2.ended = .settled s := by
  obtain ⟨settled, hsettled⟩ := settled_of_not_died _ h
  have hmem : (d.launch e).2 ∈ (d.launchAll [e]).2 := List.mem_cons_self
  obtain ⟨hlen, harrivals⟩ := arrivals_of_launchAll hmem hsettled
  refine ⟨settled, ?_, hlen, fun j x hx => ?_⟩
  · rw [← gather_launch d e (List.Perm.refl _), ← hlen]
    exact Gathering.gather_of_perm (List.Perm.of_eq harrivals)
  · have hj := congrArg (·[j]?) hsettled
    simp only [List.getElem?_map, launch_getElem?, hx, Option.map_some] at hj
    obtain ⟨s, hs, hended⟩ := Option.map_eq_some_iff.1 hj.symm
    exact ⟨s, hs, hended.symm⟩

/-- A flight fails if one of its calls dies, and for no other reason. -/
theorem result_error_iff (d : Dispatcher) (e : Errand) (fault : DispatchFault) :
    (d.launch e).2.result = .error fault
      ↔ fault = .callDied ∧ ∃ a ∈ (d.launch e).2.airborne, a.ended = .died := by
  by_cases hdied : ∃ a ∈ (d.launch e).2.airborne, a.ended = .died
  · have hne : ¬ (d.launch e).2.calls.isEmpty = true := by
      intro hnil
      obtain ⟨a, ha, -⟩ := hdied
      have hindex := launchAll_index [e] (f := (d.launch e).2) (d := d) List.mem_cons_self
      rw [List.isEmpty_iff.1 hnil] at hindex
      rw [List.map_eq_nil_iff.1 hindex] at ha
      cases ha
    rw [Flight.result, if_neg hne, Flight.gathered_died hdied, and_iff_left hdied]
    exact ⟨fun h => (Except.error.inj h).symm, fun h => congrArg _ h.symm⟩
  · obtain ⟨settled, hgathered, -⟩ := gathered_settled d e fun a ha h => hdied ⟨a, ha, h⟩
    refine iff_of_false (fun h => ?_) fun h => hdied h.2
    rw [Flight.result, hgathered] at h
    split_ifs at h
    cases h

end Dies

section StillOut

/-- A call that was handed to the transport is neither answered nor cut by a time. -/
structure StillOut (d : Dispatcher) (deadline : Deadline) (c : Call) (time : Nat) : Prop where
  inTime : d.now < deadline.time
  granted : (d.ask c.request).2.isSome
  unanswered : ∀ t, (d.reaction deadline c).delay = some t → time < d.now + t
  uncut : time < deadline.time

/-- A call is still out at a time exactly if it comes back later. -/
theorem issue_stillOut (hnow : d.now ≤ time) (i : Nat) :
    time < (d.issue deadline i c).2.finish ↔ StillOut d deadline c time := by
  rcases Nat.lt_or_ge d.now deadline.time with h | h
  · rcases hask : (d.ask c.request).2 with _ | leave
    · rw [issue_vetoed h hask]
      refine iff_of_false (Nat.not_lt.2 hnow) fun hout => ?_
      have hgranted := hout.granted
      rw [hask] at hgranted
      cases hgranted
    · rw [(issue_back h hask i).1]
      by_cases hin : ∃ t, (d.reaction deadline c).delay = some t ∧ d.now + t ≤ deadline.time
      · obtain ⟨t, ht, hle⟩ := hin
        rw [back_in_time ht hle]
        refine ⟨fun hlt => ⟨h, by rw [hask]; rfl, fun t' ht' => ?_, by omega⟩,
          fun hout => hout.unanswered t ht⟩
        obtain rfl : t = t' := Option.some.inj (ht.symm.trans ht')
        exact hlt
      · have hlate : ∀ t, (d.reaction deadline c).delay = some t → deadline.time < d.now + t :=
          fun t ht => Nat.lt_of_not_le fun hle => hin ⟨t, ht, hle⟩
        rw [back_late h hlate]
        refine ⟨fun hlt => ⟨h, by rw [hask]; rfl, fun t ht => ?_, by omega⟩,
          fun hout => ?_⟩
        · have := hlate t ht
          omega
        · have := hout.uncut
          omega
  · rw [issue_spent h]
    exact iff_of_false (Nat.not_lt.2 hnow) fun hout => Nat.not_lt.2 h hout.inTime

/-- A call that is cancelled has failed, as its breaker is told. -/
theorem record_stillOut (h : StillOut d deadline c time) (hnow : d.now ≤ time) {l : Leave}
    (hask : (d.ask c.request).2 = some (some l)) :
    d.record? deadline time c = some ⟨time, l, false⟩ := by
  have hlater := (issue_stillOut hnow 0).2 h
  rw [(issue_back h.inTime hask 0).1] at hlater
  have hfailed := back_succeeded h.inTime c time
  rw [decide_eq_false (Nat.not_le.2 hlater), Bool.false_and] at hfailed
  simp only [record?, if_neg (Nat.not_le.2 h.inTime), hask, Option.join_some, Option.map_some,
    Nat.min_eq_right (Nat.le_of_lt hlater), ← hfailed, ← ask_key hask]

end StillOut

section Fares

/-- The transport dies on a call of an errand at a time. -/
def DiesAt (d : Dispatcher) (e : Errand) (time : Nat) : Prop :=
  ∃ x ∈ d.turnsOf e, Dies x.1 e.deadline x.2 time

/-- How an errand fares that a dispatcher launches. -/
structure Fares (d : Dispatcher) (e : Errand) (f : Flight) : Prop where
  /-- It fails if one of its calls dies, and for no other reason. -/
  fails : ∀ fault, f.result = .error fault ↔ fault = .callDied ∧ ∃ time, d.DiesAt e time
  /-- It ends then at the earliest death, with nothing but the failure. -/
  earliest : ∀ time, d.DiesAt e time →
    d.DiesAt e f.finish ∧ f.finish ≤ time ∧ f.told = [.callDied]
  /-- If none dies there is an entry for each call, in its place, of what that call ended with. -/
  whole : (∀ time, ¬ d.DiesAt e time) → f.aborts = [] ∧ ∃ settled, f.gathered = .ok settled
    ∧ settled.length = f.calls.length
    ∧ ∀ (j : Nat) (x : Dispatcher × Call), (d.turnsOf e)[j]? = some x →
      f.calls[j]? = some x.2
        ∧ ∃ s, settled[j]? = some s ∧ (x.1.issue e.deadline j x.2).2.ended = .settled s
  /-- In whatever order its calls come back, joining them gives the same at the same time, and
  leaves the same calls behind. -/
  orders : ∀ as : List Airborne, as.Perm f.airborne →
    Gathering.gather f.calls.length (as.map Airborne.completion) = f.gathered
      ∧ (as.Pairwise (fun a b => a.finish ≤ b.finish) → ∃ left,
        f.joined as = (f.gathered, f.finish, left)
          ∧ (left.filter (f.finish < ·.finish)).Perm (f.unfinished.map (·.2)))
  /-- It cancels the calls that are still out when it ends. -/
  cancels : ∀ x, x ∈ f.aborts ↔ ∃ (j : Nat) (y : Dispatcher × Call),
    (d.turnsOf e)[j]? = some y ∧ StillOut y.1 e.deadline y.2 f.finish
      ∧ x = ⟨f.finish, j, y.2.request⟩
  once : (f.aborts.map (·.index)).Sublist (List.range f.calls.length)
  /-- What a cancelled call owes its breaker is a failure at that time. -/
  forfeits : ∀ y ∈ d.turnsOf e, StillOut y.1 e.deadline y.2 f.finish → ∀ l : Leave,
    (y.1.ask y.2.request).2 = some (some l) →
      y.1.record? e.deadline f.finish y.2 = some ⟨f.finish, l, false⟩

theorem launch_calls_getElem? (d : Dispatcher) (e : Errand) (j : Nat) :
    (d.launch e).2.calls[j]? = (d.turnsOf e)[j]?.map (·.2) := by
  rw [show (d.launch e).2.calls = (d.turnsOf e).map (·.2) from (turns_calls ..).symm,
    List.getElem?_map]

theorem launch_cancels (d : Dispatcher) (e : Errand) (x : Aborted) :
    x ∈ (d.launch e).2.aborts ↔ ∃ (j : Nat) (y : Dispatcher × Call),
      (d.turnsOf e)[j]? = some y ∧ StillOut y.1 e.deadline y.2 (d.launch e).2.finish
        ∧ x = ⟨(d.launch e).2.finish, j, y.2.request⟩ := by
  have hnow (y : Dispatcher × Call) (j : Nat) (hy : (d.turnsOf e)[j]? = some y) :
      y.1.now ≤ (d.launch e).2.finish := by
    rw [turns_now e.deadline _ d 0 y (List.mem_of_getElem? hy)]
    exact (d.launch_finish e).1
  constructor
  · intro hx
    obtain ⟨z, hz, rfl⟩ := List.mem_map.1 hx
    obtain ⟨hz, hlater⟩ := List.mem_filter.1 hz
    obtain ⟨j, hj⟩ := List.mem_iff_getElem?.1 hz
    obtain ⟨hcall, hair⟩ := List.getElem?_zip_eq_some.1 hj
    rw [launch_calls_getElem?, Option.map_eq_some_iff] at hcall
    obtain ⟨y, hy, hcall⟩ := hcall
    rw [launch_getElem?, hy, Option.map_some, Option.some.injEq] at hair
    refine ⟨j, y, hy, (issue_stillOut (hnow y j hy) j).1 ?_, ?_⟩
    · rw [hair]
      exact of_decide_eq_true hlater
    · rw [← hair, issue_index, hcall]
  · rintro ⟨j, y, hy, hout, rfl⟩
    have hlater := (issue_stillOut (hnow y j hy) j).2 hout
    refine List.mem_map.2 ⟨(y.2, (y.1.issue e.deadline j y.2).2), List.mem_filter.2
      ⟨List.mem_of_getElem? (i := j) (List.getElem?_zip_eq_some.2 ⟨?_, ?_⟩),
        decide_eq_true hlater⟩, ?_⟩
    · rw [launch_calls_getElem?, hy, Option.map_some]
    · rw [launch_getElem?, hy, Option.map_some]
    · rw [issue_index]

theorem launch_cancels_once (d : Dispatcher) (e : Errand) :
    ((d.launch e).2.aborts.map (·.index)).Sublist (List.range (d.launch e).2.calls.length) := by
  have hplaces : ((d.launch e).2.calls.zip (d.launch e).2.airborne).map (·.2.index)
      = List.range (d.launch e).2.calls.length := by
    have hair : ((d.launch e).2.calls.zip (d.launch e).2.airborne).map (·.2)
        = (d.launch e).2.airborne := List.map_snd_zip (d.launch_length e).le
    rw [← launchAll_index [e] (f := (d.launch e).2) (d := d) List.mem_cons_self]
    conv_rhs => rw [← hair, List.map_map]
    rfl
  rw [← hplaces, Flight.aborts, List.map_map]
  exact List.filter_sublist.map _

theorem launch_fares (d : Dispatcher) (e : Errand) : Fares d e (d.launch e).2 where
  fails fault := by
    rw [result_error_iff d e]
    refine and_congr_right fun _ => ⟨?_, ?_⟩
    · rintro ⟨a, ha, hdied⟩
      exact ⟨a.finish, (launch_dies ..).1 ⟨a, ha, hdied, rfl⟩⟩
    · rintro ⟨time, htime⟩
      obtain ⟨a, ha, hdied, -⟩ := (launch_dies ..).2 htime
      exact ⟨a, ha, hdied⟩
  earliest time htime := by
    obtain ⟨a, ha, hdied, rfl⟩ := (launch_dies ..).2 htime
    obtain ⟨hfirst, hle⟩ := Flight.finish_first ⟨a, ha, hdied⟩
    refine ⟨(launch_dies ..).1 hfirst, hle a ha hdied, ?_⟩
    rw [Flight.told, Flight.gathered_died ⟨a, ha, hdied⟩]
  whole hnone := by
    have hended : ∀ a ∈ (d.launch e).2.airborne, a.ended ≠ .died := fun a ha hdied =>
      hnone a.finish ((launch_dies ..).1 ⟨a, ha, hdied, rfl⟩)
    obtain ⟨settled, hgathered, hlen, hentry⟩ := gathered_settled d e hended
    refine ⟨?_, settled, hgathered, hlen, fun j x hx => ⟨?_, hentry j x hx⟩⟩
    · rw [Flight.aborts, Flight.unfinished_eq_nil (Flight.finish_last hended), List.map_nil]
    · rw [launch_calls_getElem?, hx, Option.map_some]
  orders as has := by
    have hgather := gather_launch d e (has.map Airborne.completion)
    refine ⟨hgather, fun hsorted => ⟨((d.launch e).2.joined as).2.2, ?_⟩⟩
    obtain ⟨hends, hleft⟩ :=
      Flight.joined_ends (d.launch_within e) (d.launch_length e) has hsorted
    exact ⟨Prod.ext (((d.launch e).2.joined_gathers as).trans hgather) (Prod.ext hends rfl), hleft⟩
  cancels := launch_cancels d e
  once := launch_cancels_once d e
  forfeits y hy hout l hask := by
    refine record_stillOut hout ?_ hask
    rw [turns_now e.deadline _ d 0 y hy]
    exact (d.launch_finish e).1

end Fares

section Clears

/-- How errands that are done side by side leave their dispatcher. -/
structure Clears (d : Dispatcher) (es : List Errand) : Prop where
  /-- The calls that each of them leaves behind are cancelled as it ends, and no others. -/
  aborted : ∃ aborted, (d.dispatchAll es).1.aborted = aborted ++ d.aborted
    ∧ aborted.Perm ((d.launchAll es).2.flatMap (·.aborts))
    ∧ aborted.Pairwise fun x y => y.time ≤ x.time
  ended : ∀ f ∈ (d.launchAll es).2, f.finish ≤ (d.dispatchAll es).1.now
  /-- Everything that was due has been done. -/
  later : ∀ x ∈ (d.dispatchAll es).1.agenda.entries, (d.dispatchAll es).1.now < x.1
  /-- What the calls owe their breakers has been recorded, each once. -/
  recorded : ∀ r, d.guard = some r → ∃ r' vs, (d.dispatchAll es).1.guard = some r'
    ∧ r.Accounts (promises d.agenda.entries) ((d.sorties es).flatMap (·.records)) vs r'
      (promises (d.dispatchAll es).1.agenda.entries)

theorem Peers.record? {d' : Dispatcher} (h : Peers d d') (deadline : Deadline) (limit : Nat)
    (c : Call) : d'.record? deadline limit c = d.record? deadline limit c := by
  simp only [Dispatcher.record?, back, reaction, h.now, h.sent, h.transport,
    (h.ask c.request).2]

theorem Peers.turns_records (deadline : Deadline) (limit : Nat) : ∀ (cs : List Call)
    {d d' : Dispatcher} (i : Nat), Peers d d' →
    (turns deadline d' i cs).filterMap (fun x => x.1.record? deadline limit x.2)
      = (turns deadline d i cs).filterMap fun x => x.1.record? deadline limit x.2
  | [], _, _, _, _ => rfl
  | c :: cs, _, _, i, h => by
    simp only [turns, List.filterMap_cons, h.record?,
      Peers.turns_records deadline limit cs (i + 1) (h.issue deadline i c).1]

/-- Whatever its journal holds, a dispatcher owes the same for the same errands. -/
theorem Peers.sorties_records : ∀ (es : List Errand) {d d' : Dispatcher}, Peers d d' →
    (d'.sorties es).flatMap (·.records) = (d.sorties es).flatMap (·.records)
  | [], _, _, _ => rfl
  | e :: es, d, d', h => by
    have hflight : (d'.launch e).2 = (d.launch e).2 := List.head_eq_of_cons_eq (h.launchAll [e])
    have hfirst : Sortie.records ⟨d', e⟩ = Sortie.records ⟨d, e⟩ := by
      simp only [Sortie.records, Sortie.flight, hflight]
      exact h.turns_records e.deadline (d.launch e).2.finish _ 0
    have hrest : Peers (d.launch e).1 (d'.launch e).1 := h.after_launchAll [e]
    simp only [sorties, List.flatMap_cons, hfirst, Peers.sorties_records es hrest]

theorem dispatchAll_clears (d : Dispatcher) (es : List Errand) : Clears d es where
  aborted := by
    refine ⟨_, dispatchAll_aborted d es, ?_, ?_⟩
    · refine (List.reverse_perm _).trans (((List.mergeSort_perm ..).flatMap_right _).trans ?_)
      refine .of_eq (flatMap_filter fun f _ hempty => ?_)
      rw [Flight.aborts, Flight.unfinished_nil (by simpa using hempty), List.map_nil]
    · rw [List.pairwise_reverse, List.pairwise_flatMap]
      refine ⟨fun f _ => List.pairwise_of_forall_mem_list fun x hx y hy => ?_,
        (Flight.pairwise_finish _).imp fun hle x hx y hy => ?_⟩
      · exact (Flight.time_of_aborts hx).trans_le (Flight.time_of_aborts hy).ge
      · rw [Flight.time_of_aborts hx, Flight.time_of_aborts hy]
        exact hle
  ended f hf := by
    rw [Traffic.dispatchAll_now]
    cases hempty : f.calls.isEmpty with
    | false =>
      refine (le_foldl_max _ _).2 _ (List.mem_map_of_mem ?_)
      exact List.mem_mergeSort.2 (List.mem_filter.2 ⟨hf, by rw [hempty]; rfl⟩)
    | true =>
      obtain ⟨before, hbefore, e, -, rfl⟩ := exists_launch hf
      rw [launch_finish_nil (List.isEmpty_iff.1 hempty), hbefore]
      exact (le_foldl_max _ _).1
  later := by
    rw [dispatchAll_eq]
    exact elapse_done _ _
  recorded r hg := by
    let t : Traffic := { dispatcher := d }
    obtain ⟨ms, hrun⟩ := Traffic.dispatchAll_run (t := t) rfl es
    obtain ⟨r₁, hg₁, hlaunch⟩ := Traffic.launch_accounts (t := t) hg es
    obtain ⟨r₂, hg₂, hwait⟩ := Traffic.elapse_accounts hg₁ ms
    have hboth := hlaunch.trans hwait
    rw [show ((t.launch es).act (.wait ms)) = _ from hrun] at hg₂ hboth
    rw [List.append_nil, (d.peers_ready es).sorties_records es] at hboth
    simp only [Traffic.outstanding, t, List.flatMap_nil, List.append_nil] at hboth
    exact ⟨r₂, _, hg₂, hboth⟩

end Clears

/-- A dispatch fails exactly if the transport dies on one of its calls before that call is cut. It
ends then at the earliest death, with nothing but the failure. Otherwise there is an entry for each
call, in its place, of what that call ended with. Of the calls of each errand those that are still
out when it ends are cancelled, and only those. -/
theorem dispatchAll_faults (d : Dispatcher) (he : es[i]? = some e) :
    let before := (d.launchAll (es.take i)).1
    let f := (before.launch e).2
    ((d.dispatchAll es).2[i]? = some (f.result, f.elapsed)
      ∧ (d.launchAll es).2[i]? = some f
      ∧ (d.sorties es)[i]? = some ⟨before, e⟩
      ∧ d.now + f.elapsed = f.finish)
    ∧ Fares before e f
    ∧ Clears d es := by
  intro before f
  have hnow : before.now = d.now := launchAll_now (es.take i) d
  have hflight : (d.launchAll es).2[i]? = some f := by
    rw [launchAll_getElem?, he]
    rfl
  refine ⟨⟨?_, hflight, ?_, hnow ▸ before.launch_elapsed e⟩, launch_fares before e,
    dispatchAll_clears d es⟩
  · rw [dispatchAll_flights, List.getElem?_map, hflight]
    rfl
  · rw [sorties_getElem?, he]
    rfl

/-- Of three calls the first is answered after 10 milliseconds, and the transport dies on the
second after 20 and on the third after 30. -/
def brittle : Dispatcher where
  transport := fun _ r _ =>
    if r.uri.path = "/answer" then ⟨some 10, .outcome (.response ⟨204, [], []⟩)⟩
    else if r.uri.path = "/die" then ⟨some 20, .fault⟩
    else ⟨some 30, .fault⟩
  guard := some { config := ⟨3, 1000, 1000⟩ }

def brittleErrand : Errand where
  adapter :=
    { name := "partner"
      build := fun _ => (["/answer", "/die", "/linger"].map fun path =>
        ⟨⟨⟨"POST"⟩, ⟨none, some path, path, none⟩, [], []⟩, [path]⟩, [])
      read := fun _ _ => ([], []) }
  auction := ⟨"r", ["/answer", "/die", "/linger"].map fun path => ⟨path, []⟩, []⟩
  deadline := ⟨100⟩
  debug := false

def lingering : Aborted :=
  ⟨20, 2, ⟨⟨"POST"⟩, ⟨none, some "/linger", "/linger", none⟩, [], []⟩⟩

/-- The second call fails the dispatch when it dies, the first has come back in vain, and the third
is cancelled, with and without breakers. With them it gives its leave back as one that failed. -/
theorem dispatchAll_faults_brittle :
    [brittleErrand][0]? = some brittleErrand
      ∧ (∃ f : Flight, (brittle.dispatchAll [brittleErrand]).2[0]? = some (f.result, f.elapsed)
        ∧ f.result = .error .callDied ∧ f.elapsed = 20 ∧ f.told = [.callDied]
        ∧ (f.joined f.airborne).2.1 = 20)
      ∧ (brittle.dispatchAll [brittleErrand]).1.aborted = [lingering]
      ∧ (∃ r vs, (brittle.dispatchAll [brittleErrand]).1.guard = some r
        ∧ Registry.Serves { config := ⟨3, 1000, 1000⟩ } [] vs r []
        ∧ (records vs).Perm [⟨10, ⟨"/answer", ⟨false⟩⟩, true⟩, ⟨20, ⟨"/die", ⟨false⟩⟩, false⟩,
          ⟨20, ⟨"/linger", ⟨false⟩⟩, false⟩])
      ∧ ({ brittle with guard := none }.dispatchAll [brittleErrand]).1.aborted = [lingering] := by
  have he : [brittleErrand][0]? = some brittleErrand := rfl
  obtain ⟨⟨hresult, -, -, -⟩, hfares, hclears⟩ := dispatchAll_faults brittle he
  have hdies : brittle.DiesAt brittleErrand 20 := (launch_dies ..).1 (by decide +kernel)
  obtain ⟨left, hjoined, -⟩ := (hfares.orders _ (List.Perm.refl _)).2 (by decide +kernel)
  have helapsed : (brittle.launch brittleErrand).2.elapsed = 20 := by decide +kernel
  have hfinish : (brittle.launch brittleErrand).2.finish = 20 := by decide +kernel
  refine ⟨he, ⟨_, hresult, (hfares.fails _).2 ⟨rfl, 20, hdies⟩, helapsed,
    (hfares.earliest 20 hdies).2.2, ?_⟩, by decide +kernel, ?_, by decide +kernel⟩
  · rw [hjoined]
    exact hfinish
  · obtain ⟨r, vs, hr, hserves, hbalance⟩ := hclears.recorded _ rfl
    have hnone : promises (brittle.dispatchAll [brittleErrand]).1.agenda.entries = [] := by
      decide +kernel
    have howed : (brittle.sorties [brittleErrand]).flatMap (·.records)
        = [⟨10, ⟨"/answer", ⟨false⟩⟩, true⟩, ⟨20, ⟨"/die", ⟨false⟩⟩, false⟩,
          ⟨20, ⟨"/linger", ⟨false⟩⟩, false⟩] := by decide +kernel
    rw [hnone] at hserves hbalance
    rw [howed, show promises brittle.agenda.entries = [] from rfl, List.append_nil,
      List.append_nil] at hbalance
    exact ⟨r, vs, hr, hserves, hbalance.symm⟩

end Dispatcher

end AuctionGate
