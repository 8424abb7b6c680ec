import AuctionGate.Proofs.Dispatch.Chronicle

/-!
# One breaker a host

A host is known by the authority of a URI as it is written. As long as a host is spelled in one
way, all calls to it go through one breaker: after as many failures in a row as the threshold,
within a window, no call to it is sent until the closing delay is over (`run_vetoes`).

Authorities that differ in the case of letters name one host too, but they have breakers of their
own. So a host that is called in two spellings is called on though it has failed
(`sent_in_capitals`).
-/

namespace AuctionGate

open Breaker
open Dispatcher (hostKey)

theorem Breaker.settle_opened {b : Breaker} (h : b.state = .opened) (c : Config) (p : Permit)
    (succeeded : Bool) : (b.settle c p succeeded).breaker.state = .opened
      ∧ (b.settle c p succeeded).stops = false := by
  rcases p with ⟨_ | _⟩ <;> simp [settle, h]

/-- Authorities that differ in the case of letters at most. -/
def SameHost (a b : String) : Prop := a.toList.map Char.toLower = b.toList.map Char.toLower

instance (a b : String) : Decidable (SameHost a b) :=
  inferInstanceAs (Decidable (a.toList.map Char.toLower = b.toList.map Char.toLower))

/-- What is recorded of a host, however it is spelled. -/
def recordsAt (host : String) (hs : List Happening) : List Record :=
  (records (visitsOf hs)).filter (SameHost ·.leave.key host)

namespace Stand

/-- The breaker of a key is open, and stays so until some time. -/
structure Vetoes (key : String) (due : Nat) (s : Stand) : Prop where
  state : (s.registry.breaker key).state = .opened
  timers : ∀ e ∈ s.timers, due ≤ e.1

/-- The breaker of a key has counted failures, and forgives none of them before some time. -/
structure Counts (key : String) (due count : Nat) (s : Stand) : Prop where
  state : (s.registry.breaker key).state = .closed
  failures : (s.registry.breaker key).failures.toNat = count
  timers : ∀ e ∈ s.timers, due ≤ e.1

variable {key : String} {due count n n' : Nat} {s s' : Stand} {v : Visit} {e : Happening}
  {hs : List Happening} {x y : Record} {out out' : List Leave} {r' : Registry} {vs : List Visit}

theorem after_of_ne (h : v.key ≠ key) (s : Stand) :
    (s.after key (.visited v)).registry.breaker key = s.registry.breaker key
      ∧ (s.after key (.visited v)).timers = s.timers := by
  refine ⟨Registry.meet_of_ne (Ne.symm h), ?_⟩
  cases v with
  | recorded x => exact if_neg h
  | _ => rfl

section Opened

theorem Vetoes.after (h : s.Vetoes key due) (hfits : s.Fits key e)
    (htime : ∀ t ∈ e.time?, t < due) : (s.after key e).Vetoes key due := by
  cases e with
  | called => exact h
  | visited v =>
    by_cases hkey : v.key = key
    · cases v with
      | asked k leave =>
        refine ⟨?_, h.timers⟩
        obtain rfl : k = key := hkey
        show ((s.registry.allow k).1.registry.breaker k).state = _
        rw [Registry.breaker_allow_none (allow_opened h.state)]
        exact h.state
      | recorded x =>
        obtain rfl : x.leave.key = key := hkey
        obtain ⟨hstate, hstops⟩ :=
          settle_opened h.state s.registry.config x.leave.permit x.succeeded
        refine ⟨Registry.breaker_carry_of (P := (·.state = .opened)) h.state fun _ => hstate, ?_⟩
        simp only [Stand.after, Stand.timersAfter, if_true, Stamped.timersAfter, hstops]
        exact h.timers
      | rang time k t =>
        -- the timer that ends the vetoes is not due yet
        have hdue := h.timers _ (hfits hkey)
        have := htime time rfl
        omega
    · obtain ⟨hbreaker, htimers⟩ := after_of_ne hkey s
      exact ⟨hbreaker ▸ h.state, htimers ▸ h.timers⟩

theorem Vetoes.run (hsees : s.Sees key n hs s' n') (h : s.Vetoes key due) (hlt : n' < due) :
    s'.Vetoes key due := by
  induction hsees with
  | done => exact h
  | next _ htime hfits hrest ih =>
    exact ih (h.after hfits fun t ht => htime t ht ▸ hrest.le.trans_lt hlt) hlt

end Opened

section Closed

/-- What comes back to a closed breaker is no probe, so a failure counts. -/
theorem after_failed (hm : s.registry.Matched (x.leave :: out)) (hkey : x.leave.key = key)
    (hst : (s.registry.breaker key).state = .closed) (hf : x.succeeded = false) :
    let st := (s.registry.breaker key).fail s.registry.config
    (s.after key (.visited (.recorded x))).registry.breaker key = st.breaker
      ∧ (s.after key (.visited (.recorded x))).timers = Stamped.timersAfter x.time s.timers st := by
  subst hkey
  have hpermit : x.leave.permit = ⟨false⟩ := by
    rcases hp : x.leave.permit with ⟨_ | _⟩
    · rfl
    · have hhalf := (hm.sound _).probing (hm.probing List.mem_cons_self (by rw [hp]))
      rw [hst] at hhalf
      cases hhalf
  have hsettle : (s.registry.breaker x.leave.key).settle s.registry.config x.leave.permit
      x.succeeded = (s.registry.breaker x.leave.key).fail s.registry.config := by
    rw [hpermit, hf, settle_failed hst]
  rw [← hsettle]
  exact ⟨Registry.breaker_carry_self (hm.known _ List.mem_cons_self), if_pos rfl⟩

/-- The failure that reaches the threshold. -/
theorem vetoes_of_last (hm : s.registry.Matched (x.leave :: out)) (hkey : x.leave.key = key)
    (hst : (s.registry.breaker key).state = .closed) (hf : x.succeeded = false)
    (hlast : (s.registry.breaker key).failures.toNat + 1 = s.registry.config.threshold) :
    (s.after key (.visited (.recorded x))).Vetoes key
      (x.time + s.registry.config.closingDelay.toNat) := by
  obtain ⟨hbreaker, htimers⟩ := after_failed hm hkey hst hf
  rw [fail_last (hm.sound key) hst hlast] at hbreaker htimers
  refine ⟨by rw [hbreaker]; rfl, fun e he => ?_⟩
  rw [htimers] at he
  obtain rfl := List.mem_singleton.1 he
  exact le_rfl

/-- The first failure of a run starts the window. -/
theorem counts_of_first (hm : s.registry.Matched (x.leave :: out)) (hkey : x.leave.key = key)
    (hst : (s.registry.breaker key).state = .closed) (hf : x.succeeded = false)
    (h0 : (s.registry.breaker key).failures = 0) (hmore : 1 < s.registry.config.threshold) :
    (s.after key (.visited (.recorded x))).Counts key
      (x.time + s.registry.config.openingWindow.toNat) 1 := by
  obtain ⟨hbreaker, htimers⟩ := after_failed hm hkey hst hf
  have hne : (s.registry.breaker key).failures.toNat + 1 ≠ s.registry.config.threshold := by
    rw [h0, UInt32.toNat_zero]
    omega
  rw [fail_first (hm.sound key) hst hne h0] at hbreaker htimers
  refine ⟨by rw [hbreaker]; exact hst, by rw [hbreaker]; rfl, fun e he => ?_⟩
  rw [htimers] at he
  obtain rfl := List.mem_singleton.1 he
  exact le_rfl

/-- Another failure leaves the window as it is. -/
theorem Counts.fail (h : s.Counts key due count) (hm : s.registry.Matched (x.leave :: out))
    (hkey : x.leave.key = key) (hf : x.succeeded = false) (hcount : count ≠ 0)
    (hne : count + 1 ≠ s.registry.config.threshold) :
    (s.after key (.visited (.recorded x))).Counts key due (count + 1) := by
  obtain ⟨hbreaker, htimers⟩ := after_failed hm hkey h.state hf
  have hsucc := (hm.sound key).failures_succ h.state
  have h0 : (s.registry.breaker key).failures ≠ 0 := fun h0 =>
    hcount (by rw [← h.failures, h0]; rfl)
  rw [fail_next (hm.sound key) h.state (h.failures ▸ hne) h0] at hbreaker htimers
  exact ⟨by rw [hbreaker]; exact h.state, by rw [hbreaker, ← h.failures]; exact hsucc,
    htimers ▸ h.timers⟩

/-- Nothing else changes what a closed breaker has counted, until it forgives. -/
theorem Counts.after (h : s.Counts key due count) (hfits : s.Fits key e)
    (hother : ∀ x, e = .visited (.recorded x) → x.leave.key ≠ key)
    (htime : ∀ t ∈ e.time?, t < due) : (s.after key e).Counts key due count := by
  cases e with
  | called => exact h
  | visited v =>
    by_cases hkey : v.key = key
    · cases v with
      | asked k leave =>
        obtain rfl : k = key := hkey
        have hbreaker : (s.registry.allow k).1.registry.breaker k = s.registry.breaker k :=
          Registry.breaker_allow_self (allow_closed h.state)
        exact ⟨hbreaker ▸ h.state, hbreaker ▸ h.failures, h.timers⟩
      | recorded x => exact absurd hkey (hother x rfl)
      | rang time k t =>
        have hdue := h.timers _ (hfits hkey)
        have := htime time rfl
        omega
    · obtain ⟨hbreaker, htimers⟩ := after_of_ne hkey s
      exact ⟨hbreaker ▸ h.state, hbreaker ▸ h.failures, htimers ▸ h.timers⟩

end Closed

section Runs

/-- What is recorded of a key. -/
def recordsOf (key : String) (hs : List Happening) : List Record :=
  (records (visitsOf hs)).filter (·.leave.key = key)

theorem recordsOf_cons_self (h : x.leave.key = key) (hs : List Happening) :
    recordsOf key (.visited (.recorded x) :: hs) = x :: recordsOf key hs :=
  List.filter_cons_of_pos (decide_eq_true h)

theorem recordsOf_cons_of_ne (h : ∀ x, e = .visited (.recorded x) → x.leave.key ≠ key) :
    recordsOf key (e :: hs) = recordsOf key hs := by
  rcases e with _ | ⟨_ | x | _⟩
  case visited.recorded => exact List.filter_cons_of_neg (by simpa using h x rfl)
  all_goals rfl

theorem after_config (key : String) (s : Stand) (e : Happening) :
    (s.after key e).registry.config = s.registry.config := by
  cases e with
  | called => rfl
  | visited v => exact Registry.meet_config ..

theorem Sees.config (h : Sees key s n hs s' n') :
    s'.registry.config = s.registry.config := by
  induction h with
  | done => rfl
  | next _ _ _ _ ih => exact ih.trans (after_config ..)

theorem Sees.record_time (h : s.Sees key n hs s' n') (hx : x ∈ recordsOf key hs) : n ≤ x.time := by
  obtain ⟨v, hv, hvx⟩ := List.mem_filterMap.1 (List.mem_filter.1 hx).1
  obtain ⟨e, he, hev⟩ := List.mem_filterMap.1 hv
  rcases e with _ | v'
  · cases hev
  · obtain rfl := Option.some.inj hev
    cases v' with
    | recorded x' =>
      obtain rfl := Option.some.inj hvx
      exact h.time _ he _ rfl
    | _ => cases hvx

/-- A registry goes on with its visits after what happens first. -/
theorem serves_after (key : String)
    (hserves : s.registry.Serves out (visitsOf (e :: hs)) r' out')
    (hm : s.registry.Matched out) :
    ∃ out₁, (s.after key e).registry.Serves out₁ (visitsOf hs) r' out'
      ∧ (s.after key e).registry.Matched out₁ := by
  cases e with
  | called => exact ⟨out, hserves, hm⟩
  | visited v =>
    cases hserves with
    | vetoed hv hserves => exact ⟨_, hserves, hm.vetoed hv⟩
    | granted hg hserves => exact ⟨_, hserves, hm.granted hg⟩
    | recorded hperm hserves => exact ⟨_, hserves, (hm.perm hperm).settle⟩
    | rang hserves => exact ⟨_, hserves, hm.fire ..⟩

theorem matched_recorded (hserves : s.registry.Serves out (.recorded x :: vs) r' out')
    (hm : s.registry.Matched out) : ∃ rest, s.registry.Matched (x.leave :: rest) := by
  cases hserves with
  | recorded hperm => exact ⟨_, hm.perm hperm⟩

/-- A run of failures that goes on until the threshold, before any are forgiven, opens the breaker,
which vetoes all calls until the closing delay is over. -/
theorem Counts.run {c : Config} (hsees : s.Sees key n hs s' n')
    (hserves : s.registry.Serves out (visitsOf hs) r' out') (hc : s.registry.config = c)
    (hm : s.registry.Matched out) (h : s.Counts key due count) (hpos : count ≠ 0)
    (hlt : count < c.threshold)
    (hfailed : ∀ z ∈ (recordsOf key hs).take (c.threshold - count), z.succeeded = false)
    (hlast : (recordsOf key hs)[c.threshold - count - 1]? = some y) (hwindow : y.time < due)
    (hsoon : n' < y.time + c.closingDelay.toNat) :
    s'.Vetoes key (y.time + c.closingDelay.toNat) := by
  induction hsees generalizing out count with
  | done => cases hlast
  | @next s s' n m n' e hs hle htime hfits hrest ih =>
    obtain ⟨out₁, hserves', hm'⟩ := serves_after key hserves hm
    have hc' : (s.after key e).registry.config = c := (after_config key s e).trans hc
    by_cases hown : ∃ x, e = .visited (.recorded x) ∧ x.leave.key = key
    · obtain ⟨x, rfl, hkey⟩ := hown
      obtain ⟨rest, hmx⟩ := matched_recorded hserves hm
      rw [recordsOf_cons_self hkey] at hfailed hlast
      have hleft : c.threshold - count = (c.threshold - (count + 1)) + 1 := by omega
      rw [hleft] at hfailed hlast
      have hf : x.succeeded = false := hfailed x List.mem_cons_self
      by_cases hthis : count + 1 = c.threshold
      · rw [hthis, Nat.sub_self] at hlast
        obtain rfl : x = y := Option.some.inj hlast
        have hvetoes := vetoes_of_last hmx hkey h.state hf (by rw [h.failures, hc, hthis])
        rw [hc] at hvetoes
        exact hvetoes.run hrest hsoon
      · refine ih hserves' hc' hm' (h.fail hmx hkey hf hpos (hc ▸ hthis)) (Nat.succ_ne_zero _)
          (by omega) (fun z hz => hfailed z (List.mem_cons_of_mem x hz)) ?_ hsoon
        rwa [Nat.add_sub_cancel, show c.threshold - (count + 1)
          = (c.threshold - (count + 1) - 1) + 1 by omega, List.getElem?_cons_succ] at hlast
    · have hother : ∀ x, e = .visited (.recorded x) → x.leave.key ≠ key :=
        fun x he hkey => hown ⟨x, he, hkey⟩
      rw [recordsOf_cons_of_ne hother] at hfailed hlast
      -- the last failure is yet to come, so the window is not over
      have hafter := hrest.record_time (List.mem_of_getElem? hlast)
      exact ih hserves' hc' hm' (h.after hfits hother fun t ht => by have := htime t ht; omega)
        hpos hlt hfailed hlast hsoon

/-- The same for a run of failures that begins. -/
theorem vetoes_of_run {c : Config} (hsees : s.Sees key n (.visited (.recorded x) :: hs) s' n')
    (hserves : s.registry.Serves out (visitsOf (.visited (.recorded x) :: hs)) r' out')
    (hc : s.registry.config = c) (hm : s.registry.Matched out) (hkey : x.leave.key = key)
    (hst : (s.registry.breaker key).state = .closed)
    (h0 : (s.registry.breaker key).failures = 0)
    (hfailed : ∀ z ∈ (recordsOf key (.visited (.recorded x) :: hs)).take c.threshold,
      z.succeeded = false)
    (hlast : (recordsOf key (.visited (.recorded x) :: hs))[c.threshold - 1]? = some y)
    (hwindow : 1 < c.threshold → y.time < x.time + c.openingWindow.toNat)
    (hsoon : n' < y.time + c.closingDelay.toNat) :
    s'.Vetoes key (y.time + c.closingDelay.toNat) := by
  obtain ⟨rest, hmx⟩ := matched_recorded hserves hm
  obtain ⟨out₁, hserves', hm'⟩ := serves_after key hserves hm
  rw [recordsOf_cons_self hkey] at hfailed hlast
  have hpos := threshold_pos c
  obtain ⟨more, hmore⟩ : ∃ more, c.threshold = more + 1 := ⟨c.threshold - 1, by omega⟩
  rw [hmore] at hfailed hlast
  have hf : x.succeeded = false := hfailed x List.mem_cons_self
  cases hsees with
  | next _ _ _ hrest =>
    by_cases hone : c.threshold = 1
    · rw [show more = 0 by omega] at hlast
      obtain rfl : x = y := Option.some.inj hlast
      have hvetoes := vetoes_of_last hmx hkey hst hf (by rw [h0, hc, hone]; rfl)
      rw [hc] at hvetoes
      exact hvetoes.run hrest hsoon
    · have hmany : 1 < c.threshold := by omega
      have hcounts := counts_of_first hmx hkey hst hf h0 (hc ▸ hmany)
      rw [hc] at hcounts
      refine hcounts.run hrest hserves' ((after_config ..).trans hc) hm' Nat.one_ne_zero hmany
        (fun z hz => hfailed z (List.mem_cons_of_mem x ?_)) ?_ (hwindow hmany) hsoon
      · rwa [hmore] at hz
      · rw [hmore]
        rwa [Nat.add_sub_cancel, show more = (more - 1) + 1 by omega,
          List.getElem?_cons_succ] at hlast

end Runs

end Stand

namespace Traffic

variable {config : Config} {host : String} {before during after : List Happening}
  {first last : Record} {d : Dispatcher} {deadline : Deadline} {c : Call}

/-- A host fails. When no failure of it is counted, a run of them begins that goes on until the
threshold, and within the window. -/
structure Outage (config : Config) (host : String) (before : List Happening) (first : Record)
    (during : List Happening) (last : Record) : Prop where
  same : SameHost first.leave.key host
  closed : ((Registry.through { config } (visitsOf before)).breaker first.leave.key).state = .closed
  fresh : ((Registry.through { config } (visitsOf before)).breaker first.leave.key).failures = 0
  failed : ∀ x ∈ (recordsAt host (.visited (.recorded first) :: during)).take config.threshold,
    x.succeeded = false
  reached : (recordsAt host (.visited (.recorded first) :: during))[config.threshold - 1]?
    = some last
  window : 1 < config.threshold → last.time < first.time + config.openingWindow.toNat

/-- If a host is spelled in one way, all that is recorded of it is recorded at its breaker. -/
theorem recordsAt_eq {hs : List Happening}
    (hspelled : ∀ x ∈ recordsAt host hs, x.leave.key = host) :
    recordsAt host hs = Stand.recordsOf host hs := by
  refine List.filter_congr fun x hx => decide_eq_decide.2 ⟨fun hsame => ?_, fun hkey => ?_⟩
  · exact hspelled x (List.mem_filter.2 ⟨hx, decide_eq_true hsame⟩)
  · rw [hkey]
    rfl

/-- The call finds the breaker open to which the failures have gone. -/
theorem Outage.vetoes {transport : Transport} {as : List Act} {after : List Happening}
    {d : Dispatcher} {deadline : Deadline} {c : Call}
    (hout : Outage config host before first during last)
    (hrun : (new transport (some config)).chronicle as
      = before ++ .visited (.recorded first) :: during ++ .called d deadline c :: after)
    (hspelled : ∀ x ∈ recordsAt host (.visited (.recorded first) :: during), x.leave.key = host)
    (hsoon : d.now < last.time + config.closingDelay.toNat) :
    ∃ s : Stand, s.Vetoes host (last.time + config.closingDelay.toNat)
      ∧ d.guard = some s.registry := by
  obtain ⟨s, out, hsees, hserves⟩ := run_sees host transport config as
  rw [hrun] at hsees hserves
  obtain ⟨s₂, n₂, hsees, hlater⟩ := hsees.split
  obtain ⟨s₁, n₁, hbefore, hsees⟩ := hsees.split
  rw [visitsOf_append] at hserves
  obtain ⟨out₂, hserves, -⟩ := hserves.split
  rw [visitsOf_append] at hserves
  obtain ⟨out₁, hserved, hserves⟩ := hserves.split
  have hm := hserved.matched (Registry.matched_new config)
  have hregistry : s₁.registry = Registry.through { config } (visitsOf before) := hbefore.registry
  rw [← hregistry] at hserves hm
  have hkey : first.leave.key = host :=
    hspelled first (List.mem_filter.2 ⟨List.mem_cons_self, decide_eq_true hout.same⟩)
  have hfailed := hout.failed
  have hreached := hout.reached
  rw [recordsAt_eq hspelled] at hfailed hreached
  cases hlater with
  | next hle htime hcalled =>
    have hnow := htime d.now rfl
    exact ⟨s₂, Stand.vetoes_of_run hsees hserves hbefore.config hm hkey
      (by rw [hregistry, ← hkey]; exact hout.closed) (by rw [hregistry, ← hkey]; exact hout.fresh)
      hfailed hreached hout.window (by omega), hcalled⟩

/-- In any run and whatever the configuration, once a host has failed as often as the threshold and
within a window, each call to it before the closing delay is over is vetoed by its breaker and not
sent, if the host is spelled in one way. -/
theorem run_vetoes (transport : Transport) (config : Config) (as : List Act)
    {before during after : List Happening} {first last : Record} {d : Dispatcher}
    {deadline : Deadline} {c : Call}
    (hrun : (new transport (some config)).chronicle as
      = before ++ .visited (.recorded first) :: during ++ .called d deadline c :: after)
    (hout : Outage config (hostKey c.request) before first during last)
    (hspelled : ∀ x ∈ recordsAt (hostKey c.request) (.visited (.recorded first) :: during),
      x.leave.key = hostKey c.request)
    (hsoon : d.now < last.time + config.closingDelay.toNat) (hlive : d.now < deadline.time) :
    (∃ g, d.guard = some g ∧ (g.breaker (hostKey c.request)).state = .opened)
      ∧ ∀ i, (d.issue deadline i c).2
          = ⟨i, d.now, .settled ⟨Dispatcher.openCircuit, true⟩, none⟩
        ∧ (d.issue deadline i c).1.sent = d.sent := by
  obtain ⟨s, hvetoes, hguard⟩ := hout.vetoes hrun hspelled hsoon
  have hanswer := (Dispatcher.ask_guarded hguard c.request).2
  rw [Registry.allow_answer, allow_opened hvetoes.state] at hanswer
  refine ⟨⟨s.registry, hguard, hvetoes.state⟩, fun i => ?_⟩
  rw [Dispatcher.issue_vetoed hlive hanswer]
  exact ⟨rfl, d.ask_sent c.request⟩

/-- A transport that reaches nobody. -/
def refusing : Transport := fun _ _ _ =>
  ⟨some 0, .outcome (.failure ⟨.other, "connection refused"⟩)⟩

/-- The third call to a host whose breaker opens after two failures is not sent. -/
theorem run_vetoes_third :
    let config : Config := ⟨2, 1000, 60000⟩
    let call : Act := .launch [fatalErrand ["partner.test"]]
    let failure : Record := ⟨0, ⟨"partner.test", ⟨false⟩⟩, false⟩
    ∃ (before during after : List Happening) (d : Dispatcher) (deadline : Deadline) (c : Call),
      (new refusing (some config)).chronicle [call, call, call]
        = before ++ .visited (.recorded failure) :: during ++ .called d deadline c :: after
      ∧ d.sent.length = 2 ∧ (d.issue deadline 0 c).1.sent = d.sent := by
  intro config call failure
  have hthird : ∃ (before during after : List Happening) (d : Dispatcher) (deadline : Deadline)
      (c : Call), (new refusing (some config)).chronicle [call, call, call]
          = before ++ .visited (.recorded failure) :: during ++ .called d deadline c :: after
        ∧ Outage config (hostKey c.request) before failure during failure
        ∧ (∀ x ∈ recordsAt (hostKey c.request) (.visited (.recorded failure) :: during),
          x.leave.key = hostKey c.request)
        ∧ d.now = 0 ∧ 0 < deadline.time ∧ d.sent.length = 2 := by
    refine ⟨[_, _], [_, _, _], _, _, _, _, rfl, ?_, by decide +kernel, rfl, by decide, rfl⟩
    constructor <;> decide +kernel
  obtain ⟨before, during, after, d, deadline, c, hrun, hout, hspelled, hnow, hlive, hsent⟩ := hthird
  have hsoon : d.now < failure.time + config.closingDelay.toNat := by
    rw [hnow]
    decide
  exact ⟨before, during, after, d, deadline, c, hrun, hsent,
    ((run_vetoes refusing config _ hrun hout hspelled hsoon (hnow ▸ hlive)).2 0).2⟩

/-- A host whose breaker opens on the first failure is called again at once in capitals, and the
call is sent. -/
theorem sent_in_capitals :
    let config : Config := ⟨1, 1000, 60000⟩
    let failure : Record := ⟨0, ⟨"partner.test", ⟨false⟩⟩, false⟩
    ∃ (before after : List Happening) (d : Dispatcher) (deadline : Deadline) (c : Call),
      (new refusing (some config)).chronicle
          [.launch [fatalErrand ["partner.test"]], .launch [fatalErrand ["PARTNER.test"]]]
        = before ++ .visited (.recorded failure) :: [] ++ .called d deadline c :: after
      ∧ Outage config (hostKey c.request) before failure [] failure
      ∧ d.now < failure.time + config.closingDelay.toNat ∧ d.now < deadline.time
      ∧ (d.issue deadline 0 c).1.sent.length = d.sent.length + 1 := by
  intro config failure
  refine ⟨[_, _], _, _, _, _, rfl, ?_, ?_, ?_, rfl⟩
  · constructor <;> decide +kernel
  · decide +kernel
  · decide +kernel

end Traffic

end AuctionGate
