import AuctionGate.Proofs.Breaker.Strangers
import AuctionGate.Proofs.Dispatch.Visits
import AuctionGate.Proofs.Geo.Fetching
import AuctionGate.Proofs.Geo.Reach
import AuctionGate.Proofs.Telemetry.Ledger

/-!
# What a lookup touches

A lookup that ends before the breaker leaves nothing behind. Any other is the business of the
address it drew: no other breaker and no other address sees it, and its own breaker is asked once
and is told one result if it let the lookup through. The lookup is sampled once
(`lookup_touches`).

The requests are another matter. The first is at the address that was drawn, but an answer may
redirect the lookup to any host, and then the breaker of the address is told what that one made of
it (`lookup_redirected`).
-/

namespace AuctionGate

open Breaker

/-! ## Samples -/

/-- How long it took, if a lookup has ended that way. -/
def Occurrence.lookup? (ok : Bool) : Occurrence → Option Nat
  | lookupFinished ok' ms => if ok' = ok then some ms else none
  | _ => none

namespace Journal

/-- How long the lookups took that brought a location, or those that did not, by the ledger. -/
def durations (j : Journal) (ok : Bool) : List Nat :=
  match j.ledger.read? ⟨.lookupDuration, [("status", if ok then "ok" else "error")]⟩ with
  | some (.samples ts) => ts
  | _ => []

theorem durations_eq (j : Journal) (ok : Bool) :
    j.durations ok
      = j.samples ⟨.lookupDuration, [("status", if ok then "ok" else "error")]⟩ := rfl

theorem samples_lookup (o : Occurrence) (ok : Bool) :
    o.samples ⟨.lookupDuration, [("status", if ok then "ok" else "error")]⟩
      = (o.lookup? ok).toList := by
  cases o with
  | lookupFinished ok' ms => cases ok <;> cases ok' <;> rfl
  | _ => simp [Occurrence.samples, Occurrence.touches, Occurrence.lookup?]

theorem durations_note (j : Journal) (os : List Occurrence) (ok : Bool) :
    (j.note os).durations ok = j.durations ok ++ os.filterMap (·.lookup? ok) := by
  rw [durations_eq, durations_eq, samples_note _ _ rfl, List.filterMap_eq_flatMap_toList]
  simp only [samples_lookup]

/-- Only the end of a lookup is a sample. -/
theorem durations_quiet (j : Journal) {os : List Occurrence} {ok : Bool}
    (h : ∀ o ∈ os, o.lookup? ok = none) : (j.note os).durations ok = j.durations ok := by
  rw [durations_note, List.filterMap_eq_nil_iff.2 h, List.append_nil]

end Journal

/-! ## The steps of a lookup -/

namespace Registry

variable {r : Registry} {key k : String} {now : Nat} {st : Step} {ok : Bool}

/-- The keys that have a breaker, in the order in which they got it. -/
def keys (r : Registry) : List String := r.breakers.map (·.1)

theorem keys_put (r : Registry) (key : String) (b : Breaker) : (r.put key b).keys = r.keys := by
  rw [keys, put, List.map_map]
  exact List.map_congr_left fun e _ => by simp only [Function.comp_apply]; split <;> rfl

theorem keys_carry : (r.carry now key st).registry.keys = r.keys := by
  rw [← keys_put r key st.breaker]
  exact congrArg (List.map _) (carry_breakers ..)

theorem keys_allow (r : Registry) (key : String) :
    (r.allow key).1.registry.keys = r.keys ++ if r.Knows key then [] else [key] := by
  have hget : (r.get key).registry.keys = r.keys ++ if r.Knows key then [] else [key] := by
    split_ifs with h
    · rw [get_of_knows h, List.append_nil]
    · rw [get_of_not_knows h, keys, List.map_append]
      rfl
  rcases hall : (r.breaker key).allow with _ | ⟨p, b⟩
  · rw [allow_of_none hall, hget]
  · rw [allow_of_some hall, keys_put, hget]

theorem allow_unsampled (r : Registry) (key : String) :
    ∀ o ∈ (r.allow key).1.told, o.lookup? ok = none := by
  intro o ho
  rw [allow_told_eq, List.mem_append] at ho
  rcases ho with ho | ho <;> split_ifs at ho
  · cases ho
  · rw [List.mem_singleton.1 ho]; rfl
  · rw [List.mem_singleton.1 ho]; rfl
  · cases ho

theorem carry_unsampled : ∀ o ∈ (r.carry now key st).told, o.lookup? ok = none := by
  obtain ⟨rest, hrest, htold⟩ := r.carry_told now key st
  intro o ho
  rw [htold, List.mem_append, Option.mem_toList] at ho
  rcases ho with ho | ho
  · obtain ⟨c, -, rfl⟩ := Option.map_eq_some_iff.1 ho
    cases c <;> rfl
  · have hmoves := hrest o ho
    cases o <;> first | rfl | cases hmoves

end Registry

namespace Watch

variable {w : Watch} {limit : Nat} {key : String} {ok : Bool}

theorem keys_elapse (w : Watch) (limit : Nat) :
    (w.elapse limit).registry.keys = w.registry.keys :=
  Agenda.runSteps_keeps (P := fun _ (s : Registry × Journal) => s.1.keys = w.registry.keys)
    (fun hs _ => Registry.keys_carry.trans hs) _ _ _ rfl

theorem durations_elapse (w : Watch) (limit : Nat) (ok : Bool) :
    (w.elapse limit).journal.durations ok = w.journal.durations ok :=
  Agenda.runSteps_keeps
    (P := fun _ (s : Registry × Journal) => s.2.durations ok = w.journal.durations ok)
    (fun hs _ => (Journal.durations_quiet _ Registry.carry_unsampled).trans hs) _ _ _ rfl

theorem durations_allow (w : Watch) (key : String) (ok : Bool) :
    (w.allow key).1.journal.durations ok = w.journal.durations ok :=
  Journal.durations_quiet _ (w.registry.allow_unsampled key)

theorem durations_settle (w : Watch) (key : String) (p : Permit) (succeeded ok : Bool) :
    (w.settle key p succeeded).journal.durations ok = w.journal.durations ok :=
  Journal.durations_quiet _ Registry.carry_unsampled

/-- The timers that run out up to a time, as visits to their breakers. -/
def rings (w : Watch) (limit : Nat) : List Visit :=
  (Agenda.trail ring limit (2 * w.timers.entries.length) w.timers (w.registry, w.journal)).map
    fun e => .rang e.1 e.2.1 e.2.2

theorem serves_elapse (w : Watch) (limit : Nat) (out : List Leave) :
    w.registry.Serves out (w.rings limit) (w.elapse limit).registry out := by
  let visits (l : List (Nat × String × Timer)) : List Visit :=
    l.map fun e => .rang e.1 e.2.1 e.2.2
  exact Agenda.runSteps_trail ring limit
    (Q := fun _ (s : Registry × Journal) l _ (t : Registry × Journal) =>
      s.1.Serves out (visits l) t.1 out)
    (fun _ _ => .done (.refl _)) (fun _ h => .rang h) _ w.timers (w.registry, w.journal)

/-- Without the calls of other keys. -/
def only (key : String) (w : Watch) : Watch := { w with calls := w.calls.filter (·.key = key) }

theorem shares_only (key : String) (w : Watch) : w.Shares key (w.only key) :=
  ⟨.refl _ _, rfl, rfl, rfl⟩

end Watch

/-! ## A whole lookup -/

namespace Geolocation

variable {g : Geolocation} {ip : String} {budget : Option Nat} {draw : Nat} {a : String}

/-- After a lookup that came to the breaker of `a`, everything else is as it would be if only time
had passed, as in `idle`. -/
structure Touched (g : Geolocation) (idle : Watch) (a : String) (elapsed : Nat) (ok : Bool)
    (g' : Geolocation) : Prop where
  path : g'.path = g.path
  timeout : g'.timeout = g.timeout
  /-- No other breaker, address or timer sees it. -/
  strangers : ∀ k, k ≠ a → g'.watch.Shares k (idle.only k)
  keys : g'.watch.registry.keys
    = g.watch.registry.keys ++ if g.watch.registry.Knows a then [] else [a]
  /-- It is sampled once. -/
  sampled : ∀ ok', g'.watch.journal.durations ok'
    = g.watch.journal.durations ok' ++ if ok = ok' then [elapsed] else []

theorem told_sampled (a : String) (ok ok' : Bool) (elapsed : Nat) :
    (told a ok elapsed).filterMap (·.lookup? ok') = if ok = ok' then [elapsed] else [] := by
  cases ok <;> cases ok' <;> rfl

theorem touched_veto (g : Geolocation) (a : String) :
    g.Touched g.watch a 0 false
      ({ g with watch := (g.watch.allow a).1 }.note (told a false 0)) where
  path := rfl
  timeout := rfl
  strangers k hk := { (g.watch.shares_only k).allow_left (Ne.symm hk) with }
  keys := g.watch.registry.keys_allow a
  sampled ok' := by
    show ((g.watch.allow a).1.journal.note (told a false 0)).durations ok' = _
    rw [Journal.durations_note, told_sampled, Watch.durations_allow]

/-- The client when the breaker of the inquiry's address has been asked, time has passed and the
inquiry has ended. -/
def after (g : Geolocation) (i : Inquiry) (elapsed : Nat) (ok : Bool) : Geolocation :=
  { g with watch := (g.watch.allow i.address).1.advance elapsed }.finish i ok

theorem touched_after (g : Geolocation) (i : Inquiry) (hi : i.start = g.watch.now) (elapsed : Nat)
    (ok : Bool) :
    g.Touched (g.watch.advance elapsed) i.address elapsed ok (g.after i elapsed ok) where
  path := rfl
  timeout := rfl
  strangers k hk := by
    have hallow := (g.watch.shares_only k).allow_left (Ne.symm hk)
    have hpass := hallow.elapse (g.watch.now + elapsed)
    have hend : Watch.Shares k (Watch.settle _ i.address i.permit ok) _ :=
      hpass.settle_left (Ne.symm hk) i.permit
    exact { hend with }
  keys := by
    refine Registry.keys_carry.trans ?_
    rw [show ((g.watch.allow i.address).1.advance elapsed).registry.keys
      = (g.watch.allow i.address).1.registry.keys from Watch.keys_elapse ..]
    exact g.watch.registry.keys_allow i.address
  sampled ok' := by
    let passed := (g.watch.allow i.address).1.advance elapsed
    have htime : passed.now - i.start = elapsed := by
      rw [hi]
      exact Nat.add_sub_cancel_left ..
    have hpassed : passed.journal.durations ok' = g.watch.journal.durations ok' :=
      (Watch.durations_elapse ..).trans (Watch.durations_allow ..)
    show ((passed.settle i.address i.permit ok).journal.note
      (told i.address ok (passed.now - i.start))).durations ok' = _
    rw [Journal.durations_note, told_sampled, htime, Watch.durations_settle, hpassed]

/-- The breaker of the address is asked, then timers run out, then it is told the result. -/
theorem serves_after (g : Geolocation) (i : Inquiry) (elapsed : Nat) (ok : Bool)
    (hp : (g.watch.allow i.address).2 = some i.permit) (out : List Leave) :
    g.watch.registry.Serves out
      (.asked i.address (some i.permit)
        :: (g.watch.allow i.address).1.rings (g.watch.now + elapsed)
        ++ [.recorded ⟨g.watch.now + elapsed, ⟨i.address, i.permit⟩, ok⟩])
      (g.after i elapsed ok).watch.registry out := by
  refine .granted hp ?_
  refine ((g.watch.allow i.address).1.serves_elapse (g.watch.now + elapsed) _).append ?_
  exact .recorded (.refl _) (.done (.refl _))

/-- What can come of a lookup: nothing is touched, the breaker vetoes it, or requests are made. -/
inductive Course (g : Geolocation) (peers : String → Instance) (ip : String) (budget : Option Nat)
    (draw : Nat) : Geolocation × Lookup → Prop
  | untouched (f : LookupFault) (hf : f = .timeout ∨ f = .noAddress ∨ f = .invalidUrl)
      (hnone : g.effectiveTimeout budget ≠ 0 → ∀ a, g.drawn? draw = some a →
        Net.Url.lookup? g.rules a g.path ip = none) :
      Course g peers ip budget draw (g, { result := .error f })
  | vetoed (a : String) (url : Net.Url) (early : g.effectiveTimeout budget ≠ 0)
      (hdraw : g.drawn? draw = some a) (hurl : Net.Url.lookup? g.rules a g.path ip = some url)
      (hveto : (g.watch.allow a).2 = none) :
      Course g peers ip budget draw
        ({ g with watch := (g.watch.allow a).1 }.note (told a false 0),
          { result := .error (.circuitOpen a) })
  | asked (i : Inquiry) (early : g.effectiveTimeout budget ≠ 0)
      (hdraw : g.drawn? draw = some i.address)
      (hurl : Net.Url.lookup? g.rules i.address g.path ip = some i.url)
      (hpass : (g.watch.allow i.address).2 = some i.permit) (hstart : i.start = g.watch.now)
      (htimeout : i.timeout = g.effectiveTimeout budget) (fetch : Fetch)
      (hfetch : fetch = Fetch.run peers i.timeout Fetch.maxRedirects 0 0 i.url) :
      Course g peers ip budget draw
        (g.after i fetch.elapsed fetch.result.isOk, ⟨fetch.result, fetch.asked⟩)

theorem lookup_course (g : Geolocation) (peers : String → Instance) (ip : String)
    (budget : Option Nat) (draw : Nat) :
    Course g peers ip budget draw (g.lookup peers ip budget draw) := by
  have hstart := g.start_spec ip budget draw
  unfold lookup
  generalize g.start ip budget draw = started at hstart
  cases hstart with
  | timeout late => exact .untouched _ (.inl rfl) fun early => absurd late early
  | noAddress _ hdraw =>
    exact .untouched _ (.inr (.inl rfl)) fun _ a ha => by rw [hdraw] at ha; cases ha
  | invalidUrl a _ hdraw hurl =>
    refine .untouched _ (.inr (.inr rfl)) fun _ b hb => ?_
    rw [hdraw] at hb
    exact Option.some.inj hb ▸ hurl
  | vetoed a url early hdraw hurl hveto => exact .vetoed a url early hdraw hurl hveto
  | through a url p early hdraw hurl hpass =>
    exact .asked ⟨a, p, g.watch.now, url, g.effectiveTimeout budget⟩ early hdraw hurl hpass rfl rfl
      _ rfl

/-- Only those to whom the answers lead from the URL of the drawn address have a say. -/
theorem lookup_congr {peers peers' : String → Instance} {url : Net.Url}
    (hdraw : g.drawn? draw = some a) (hurl : Net.Url.lookup? g.rules a g.path ip = some url)
    (h : ∀ k u, Fetch.Leads peers 0 url k u → peers' u.origin k = peers u.origin k) :
    g.lookup peers' ip budget draw = g.lookup peers ip budget draw := by
  have hstart := g.start_spec ip budget draw
  unfold lookup
  generalize g.start ip budget draw = started at hstart
  cases hstart with
  | timeout | noAddress | invalidUrl | vetoed => rfl
  | through b url' p early hdraw' hurl' =>
    obtain rfl := Option.some.inj (hdraw.symm.trans hdraw')
    obtain rfl := Option.some.inj (hurl.symm.trans hurl')
    simp only [Fetch.run_congr h]

/-- A lookup that ended before the breaker. -/
structure Untouched (g : Geolocation) (done : Geolocation × Lookup) : Prop where
  client : done.1 = g
  asked : done.2.asked = []
  result : done.2.result = .error .timeout ∨ done.2.result = .error .noAddress
    ∨ done.2.result = .error .invalidUrl

/-- A lookup that the breaker of `a` vetoed. -/
structure Vetoed (g : Geolocation) (a : String) (done : Geolocation × Lookup) : Prop where
  result : done.2.result = .error (.circuitOpen a)
  asked : done.2.asked = []
  touched : g.Touched g.watch a 0 false done.1
  /-- The breaker is told nothing. -/
  visits : ∀ out, g.watch.registry.Serves out [.asked a none] done.1.watch.registry out

/-- A lookup that the breaker of `a` let through to `url`, with so much time for its requests. -/
structure Inquired (g : Geolocation) (peers : String → Instance) (a : String) (url : Net.Url)
    (p : Permit) (timeout : Nat) (fetch : Fetch) (done : Geolocation × Lookup) : Prop where
  found : done.2 = ⟨fetch.result, fetch.asked⟩
  inTime : fetch.elapsed ≤ timeout
  touched : g.Touched (g.watch.advance fetch.elapsed) a fetch.elapsed done.2.result.isOk done.1
  /-- The breaker is told one result; timers run out before that. -/
  visits : ∃ rings : List Visit, (∀ v ∈ rings, ∃ time key t, v = .rang time key t)
    ∧ ∀ out, g.watch.registry.Serves out
      (.asked a (some p) :: rings
        ++ [.recorded ⟨g.watch.now + fetch.elapsed, ⟨a, p⟩, done.2.result.isOk⟩])
      done.1.watch.registry out
  /-- The first request is at the URL, and others only where the answers lead. -/
  asked : ∀ k u, done.2.asked[k]? = some u → Fetch.Leads peers 0 url k u
  few : done.2.requests ≤ Fetch.maxRedirects + 1
  direct : (peers url.origin 0).2.sendsTo? = none → done.2.requests ≤ 1
  ok_iff : ∀ info, done.2.result = .ok info
    ↔ Fetch.Brings peers info Fetch.maxRedirects 0 url timeout
  fault : ∀ f, done.2.result = .error f →
    f = .timeout ∨ f = .request ∨ f = .decode ∨ ∃ n, f = .badStatus n

theorem inquired_after (g : Geolocation) (peers : String → Instance) (i : Inquiry)
    (hpass : (g.watch.allow i.address).2 = some i.permit) (hi : i.start = g.watch.now) :
    let fetch := Fetch.run peers i.timeout Fetch.maxRedirects 0 0 i.url
    g.Inquired peers i.address i.url i.permit i.timeout fetch
      (g.after i fetch.elapsed fetch.result.isOk, ⟨fetch.result, fetch.asked⟩) where
  found := rfl
  inTime := Fetch.run_elapsed ..
  touched := g.touched_after i hi _ _
  visits := by
    refine ⟨(g.watch.allow i.address).1.rings _, fun v hv => ?_, g.serves_after i _ _ hpass⟩
    obtain ⟨e, -, rfl⟩ := List.mem_map.1 hv
    exact ⟨_, _, _, rfl⟩
  asked k u hk := by
    have hleads := (Fetch.run_asked ..).1 k u hk
    rwa [Nat.zero_add] at hleads
  few := (Fetch.run_asked ..).2
  direct hnot := by
    refine Nat.le_of_not_lt fun htwo => ?_
    have hleads := (Fetch.run_asked ..).1 1 _ (List.getElem?_eq_getElem htwo)
    exact absurd (Fetch.eq_of_leads hnot hleads).1 (by decide)
  ok_iff info := by
    rw [Fetch.run_ok_iff, Nat.sub_zero, and_iff_right (Nat.zero_le _)]
  fault f h := fetch_fault _ _ _ _ _ _ h

/-- A lookup that ends before the breaker leaves everything as it was. Any other touches only the
address it drew: it makes at most that breaker and sees to it that everything else is as if only
time had passed; it is sampled once, as a success exactly if it brought a location. If the breaker
lets it through, the first request is at that address and each further one where the answer before
it redirects the lookup, all within the timeout; it has a location exactly if the first answer that
is not a redirect brings one in time, and the breaker is told that, or that there is none, once.
Nobody has a say but those who are asked. A lookup that is vetoed tells the breaker nothing. -/
theorem lookup_touches (g : Geolocation) (peers : String → Instance) (ip : String)
    (budget : Option Nat) (draw : Nat) :
    let timeout := budget.elim g.timeout (min · g.timeout)
    let done := g.lookup peers ip budget draw
    ((timeout = 0 ∨ ∀ a, g.drawn? draw = some a → Net.Url.lookup? g.rules a g.path ip = none) →
        g.Untouched done)
      ∧ ∀ a url, timeout ≠ 0 → g.drawn? draw = some a →
        Net.Url.lookup? g.rules a g.path ip = some url →
          ((g.watch.allow a).2 = none → g.Vetoed a done)
          ∧ (∀ p, (g.watch.allow a).2 = some p →
            let fetch := Fetch.run peers timeout Fetch.maxRedirects 0 0 url
            g.Inquired peers a url p timeout fetch done)
          ∧ ∀ peers', (∀ k u, Fetch.Leads peers 0 url k u → peers' u.origin k = peers u.origin k) →
            g.lookup peers' ip budget draw = done := by
  have htimeout : budget.elim g.timeout (min · g.timeout) = g.effectiveTimeout budget := by
    cases budget <;> rfl
  have hcourse := g.lookup_course peers ip budget draw
  dsimp only
  rw [htimeout]
  have hcongr {a : String} {url : Net.Url} (hdraw : g.drawn? draw = some a)
      (hurl : Net.Url.lookup? g.rules a g.path ip = some url) (peers' : String → Instance)
      (h : ∀ k u, Fetch.Leads peers 0 url k u → peers' u.origin k = peers u.origin k) :
      g.lookup peers' ip budget draw = g.lookup peers ip budget draw :=
    lookup_congr hdraw hurl h
  generalize g.lookup peers ip budget draw = done at hcourse hcongr
  cases hcourse with
  | untouched f hf hnone =>
    refine ⟨fun _ => ⟨rfl, rfl, by simpa using hf⟩, fun a url early hdraw hurl => ?_⟩
    rw [hnone early a hdraw] at hurl
    cases hurl
  | vetoed b url early hdraw hurl hveto =>
    refine ⟨fun hnone => ?_, fun a url' _ ha hurl' =>
      ⟨fun _ => ?_, fun p hp => ?_, hcongr ha hurl'⟩⟩
    · rcases hnone with late | hnone
      · exact absurd late early
      · rw [hnone b hdraw] at hurl
        cases hurl
    · obtain rfl := Option.some.inj (hdraw.symm.trans ha)
      exact ⟨rfl, rfl, g.touched_veto b, fun out => .vetoed hveto (.done (.refl out))⟩
    · obtain rfl := Option.some.inj (hdraw.symm.trans ha)
      rw [hveto] at hp
      cases hp
  | asked i early hdraw hurl hpass hstart hi fetch hfetch =>
    refine ⟨fun hnone => ?_, fun a url' _ ha hurl' =>
      ⟨fun hveto => ?_, fun p hp => ?_, hcongr ha hurl'⟩⟩
    · rcases hnone with late | hnone
      · exact absurd late early
      · rw [hnone _ hdraw] at hurl
        cases hurl
    · obtain rfl := Option.some.inj (hdraw.symm.trans ha)
      rw [hveto] at hpass
      cases hpass
    · obtain rfl := Option.some.inj (hdraw.symm.trans ha)
      obtain rfl := Option.some.inj (hurl.symm.trans hurl')
      obtain rfl := Option.some.inj (hpass.symm.trans hp)
      subst hfetch
      rw [← hi]
      exact g.inquired_after peers i hpass hstart

def pair : Geolocation :=
  .ofPool (.ofAddresses "geo" ["10.0.0.1:80", "10.0.0.2:80"]) ⟨1, 100, 1000⟩ "/geo" 50

/-- An instance that answers after 7 milliseconds that it cannot. -/
def busy : Instance := fun _ => (7, .response 503 none [] true)

/-- An instance that answers after 3 milliseconds that it knows nothing of the place. -/
def vague : Instance := fun _ => (3, .response 200 none (Utf8.encode "\x7b\x7d") true)

/-- The URL of a lookup that draws the first address. -/
def pairUrl : Net.Url where
  host := .ip (.v4 0x0A000001)
  port := none
  segments := ["geo"]
  query := some "ip=8.8.8.8"

/-- An instance of a pair fails a lookup and leaves the rotation, or has an answer and stays. -/
theorem lookup_touches_pair :
    pair.drawn? 0 = some "10.0.0.1:80"
      ∧ (let done := pair.lookup (fun _ => busy) "8.8.8.8" (some 20) 0
        done.2.result = .error (.badStatus 503) ∧ done.2.requests ≤ 1
          ∧ done.1.live = ["10.0.0.2:80"]
          ∧ pair.Touched (pair.watch.advance 7) "10.0.0.1:80" 7 false done.1)
      ∧ let done := pair.lookup (fun _ => vague) "8.8.8.8" none 0
        done.2.result.isOk = true ∧ done.2.requests ≤ 1
          ∧ done.1.live = ["10.0.0.1:80", "10.0.0.2:80"]
          ∧ pair.Touched (pair.watch.advance 3) "10.0.0.1:80" 3 true done.1 := by
  have hdrawn : pair.drawn? 0 = some "10.0.0.1:80" := by decide +kernel
  have hurl : Net.Url.lookup? pair.rules "10.0.0.1:80" pair.path "8.8.8.8" = some pairUrl := by
    decide +kernel
  have hpass : (pair.watch.allow "10.0.0.1:80").2 = some ⟨false⟩ := by decide +kernel
  have hbusy := ((lookup_touches pair (fun _ => busy) "8.8.8.8" (some 20) 0).2
    "10.0.0.1:80" pairUrl (by decide) hdrawn hurl).2.1 ⟨false⟩ hpass
  have hvague := ((lookup_touches pair (fun _ => vague) "8.8.8.8" none 0).2
    "10.0.0.1:80" pairUrl (by decide) hdrawn hurl).2.1 ⟨false⟩ hpass
  have hfailed : (pair.lookup (fun _ => busy) "8.8.8.8" (some 20) 0).2.result
      = .error (.badStatus 503) := by
    rw [hbusy.found]
    rfl
  have hfound : (pair.lookup (fun _ => vague) "8.8.8.8" none 0).2.result.isOk = true := by
    decide +kernel
  refine ⟨hdrawn, ⟨hfailed, hbusy.direct rfl, by decide +kernel, ?_⟩,
    hfound, hvague.direct rfl, by decide +kernel, ?_⟩
  · have htouched := hbusy.touched
    rw [hfailed] at htouched
    exact htouched
  · have htouched := hvague.touched
    rw [hfound] at htouched
    exact htouched

/-- A place on a host outside the pool. -/
def elsewhere : Net.Url where
  scheme := .https
  host := .domain "mirror.example"
  port := none
  segments := ["geo"]
  query := none

/-- An instance that sends every lookup elsewhere, where there is an answer. -/
def redirecting (origin : String) : Instance := fun n =>
  if origin = pairUrl.origin then (2, .response 302 (some (.url elsewhere)) [] true) else vague n

/-- A lookup may make two requests, the second at a host that was not drawn. The instance that was
drawn did not answer with status 200, but no failure is recorded, which would have opened its
breaker. -/
theorem lookup_redirected :
    let done := pair.lookup redirecting "8.8.8.8" none 0
    pair.drawn? 0 = some "10.0.0.1:80"
      ∧ redirecting pairUrl.origin 0 = (2, .response 302 (some (.url elsewhere)) [] true)
      ∧ done.2.asked = [pairUrl, elsewhere] ∧ done.2.requests = 2 ∧ done.2.result.isOk = true
      ∧ (done.1.watch.registry.breaker "10.0.0.1:80").state = .closed
      ∧ done.1.live = ["10.0.0.1:80", "10.0.0.2:80"] :=
  ⟨by decide +kernel, if_pos rfl, by decide +kernel, by decide +kernel, by decide +kernel,
    by decide +kernel, by decide +kernel⟩

end Geolocation

end AuctionGate
