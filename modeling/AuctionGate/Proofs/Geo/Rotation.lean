import AuctionGate.Geo.Lookup
import AuctionGate.Pool.Resolve
import AuctionGate.Proofs.Geo.Freshness

/-!
# Lookups one after the other

A session is a client with at most one lookup out. Between lookups no probe is out, so the breaker
of a drawn address vetoes a lookup only while it is open, and an open address is drawn only after a
refresh. A lookup finds no address exactly if every configured address has an open breaker and
there was no refresh since that opened (`lookup_refused`).
-/

namespace AuctionGate

open Breaker

structure Session where
  client : Geolocation
  /-- The lookup that is out. -/
  out : Option Inquiry

namespace Session

inductive Act where
  | start (ip : String) (budget : Option Nat) (draw : Nat)
  /-- The lookup that is out has an answer, or has failed. -/
  | finish (ok : Bool)
  /-- The lookup that is out is given up. -/
  | drop
  | advance (ms : Nat)
  | refresh
  deriving DecidableEq

def new (pool : Pool) (config : Config) (path : String) (timeout : Nat)
    (rules : Net.DomainRules) : Session :=
  ⟨.ofPool pool config path timeout rules, none⟩

def act (s : Session) : Act → Session
  | .start ip budget draw =>
    match s.out with
    | some _ => s
    | none =>
      match s.client.start ip budget draw with
      | (g, .ok i) => ⟨g, some i⟩
      | (g, .error _) => ⟨g, none⟩
  | .finish ok =>
    match s.out with
    | some i => ⟨s.client.finish i ok, none⟩
    | none => s
  | .drop =>
    match s.out with
    | some i => ⟨s.client.abandon i, none⟩
    | none => s
  | .advance ms => { s with client := { s.client with watch := s.client.watch.advance ms } }
  | .refresh => { s with client := { s.client with watch := s.client.watch.poolTurn Pool.refresh } }

def run (s : Session) (as : List Act) : Session := as.foldl act s

/-- The probe that is out, if any, is that of the lookup that is out. -/
def Probes (out : Option Inquiry) (key : String) : Prop :=
  ∃ i, out = some i ∧ i.address = key ∧ i.permit.probe = true

structure Orderly (configured : List String) (s : Session) : Prop where
  steady : Steady configured (Probes s.out) s.client.watch.registry s.client.watch.journal
    s.client.watch.timers
  known : ∀ i, s.out = some i → s.client.watch.registry.Knows i.address

end Session

namespace Geolocation

variable {g : Geolocation} {ip : String} {budget : Option Nat} {draw : Nat} {a : String}
  {f : LookupFault} {peers : String → Instance}

theorem drawn?_eq (g : Geolocation) (draw : Nat) :
    g.drawn? draw = g.live[draw % g.live.length]? := by
  unfold drawn? live
  cases g.watch.registry.pool <;> rfl

theorem live_of_drawn (h : g.drawn? draw = some a) : a ∈ g.live := by
  rw [drawn?_eq] at h
  exact List.mem_of_getElem? h

theorem drawn?_eq_none : g.drawn? draw = none ↔ g.live = [] := by
  rw [drawn?_eq, List.getElem?_eq_none_iff]
  rcases g.live with _ | ⟨a, as⟩
  · simp
  · simpa using Nat.mod_lt draw (Nat.succ_pos as.length)

/-- A lookup is let through by the breaker of an address in rotation, or is refused. Only a veto of
the breaker leaves anything behind. -/
theorem start_cases (g : Geolocation) (ip : String) (budget : Option Nat) (draw : Nat) :
    (∃ f, g.start ip budget draw = (g, .error f) ∧ ∀ a, f ≠ .circuitOpen a)
      ∨ (∃ a, a ∈ g.live ∧ (g.watch.allow a).2 = none ∧ g.start ip budget draw
          = ({ g with watch := (g.watch.allow a).1 }.note (told a false 0),
            .error (.circuitOpen a)))
      ∨ ∃ i, (g.watch.allow i.address).2 = some i.permit
          ∧ g.start ip budget draw = ({ g with watch := (g.watch.allow i.address).1 }, .ok i) := by
  unfold start
  dsimp only
  split_ifs
  · exact .inl ⟨_, rfl, fun _ => nofun⟩
  · split
    · exact .inl ⟨_, rfl, fun _ => nofun⟩
    · rename_i a hdraw
      split
      · exact .inl ⟨_, rfl, fun _ => nofun⟩
      · rename_i url hurl
        rcases hall : g.watch.allow a with ⟨w, _ | permit⟩
        · exact .inr (.inl ⟨a, live_of_drawn hdraw, by rw [hall], by simp only [hall]⟩)
        · exact .inr (.inr ⟨⟨a, permit, w.now, url, g.effectiveTimeout budget⟩, by rw [hall],
            by simp only [hall]⟩)

/-- With time left, nothing but an empty rotation leaves a lookup without an address. -/
theorem start_noAddress_iff (ht : g.effectiveTimeout budget ≠ 0) :
    (g.start ip budget draw).2 = .error .noAddress ↔ g.live = [] := by
  rw [← @drawn?_eq_none g draw]
  unfold start
  dsimp only
  rw [if_neg ht]
  split
  · rename_i hdraw
    exact iff_of_true rfl hdraw
  · rename_i a hdraw
    rw [hdraw]
    split
    · simp
    · split <;> simp

theorem resultOf_error {status : Nat} {body : Octets} {complete : Bool}
    (h : Fetch.resultOf status body complete = .error f) :
    f = .decode ∨ ∃ n, f = .badStatus n := by
  unfold Fetch.resultOf at h
  split_ifs at h
  · exact .inr ⟨_, (Except.error.inj h).symm⟩
  · exact .inl (Except.error.inj h).symm
  · split at h
    · cases h
    · exact .inl (Except.error.inj h).symm

/-- What can come of a lookup's requests. -/
theorem fetch_fault (peers : String → Instance) (timeout redirects n spent : Nat) (url : Net.Url)
    (h : (Fetch.run peers timeout redirects n spent url).result = .error f) :
    f = .timeout ∨ f = .request ∨ f = .decode ∨ ∃ n, f = .badStatus n := by
  fun_induction Fetch.run peers timeout redirects n spent url with
  | case1 => exact .inl (Except.error.inj h).symm
  | case2 | case3 | case5 | case6 => exact .inr (.inl (Except.error.inj h).symm)
  | case4 => exact .inr (.inr (resultOf_error h))
  | case7 => rename_i ih; exact ih h

/-- Requests do not make a lookup find no address or an open circuit. -/
theorem fetch_error (peers : String → Instance) (timeout redirects n spent : Nat) (url : Net.Url)
    (h : (Fetch.run peers timeout redirects n spent url).result = .error f) :
    f ≠ .noAddress ∧ ∀ a, f ≠ .circuitOpen a := by
  rcases fetch_fault peers timeout redirects n spent url h with rfl | rfl | rfl | ⟨n, rfl⟩ <;>
    exact ⟨nofun, fun _ => nofun⟩

/-- What a lookup is refused with, it is refused with at its start. -/
theorem lookup_error_iff (hf : f = .noAddress ∨ ∃ a, f = .circuitOpen a) :
    (g.lookup peers ip budget draw).2.result = .error f
      ↔ (g.start ip budget draw).2 = .error f := by
  unfold lookup
  rcases g.start ip budget draw with ⟨g', f' | i⟩
  · simp
  · simp only [reduceCtorEq, iff_false]
    intro h
    obtain ⟨hno, hopen⟩ := fetch_error _ _ _ _ _ _ h
    rcases hf with rfl | ⟨a, rfl⟩
    · exact hno rfl
    · exact hopen a rfl

end Geolocation

namespace Session

variable {s : Session} {configured : List String} {i : Inquiry} {ok : Bool} {as : List Act}
  {a : Act}

theorem told_still (address : String) (ok : Bool) (elapsed : Nat) :
    ∀ o ∈ Geolocation.told address ok elapsed, o.Still := by
  intro o ho
  cases ok <;> simp only [Geolocation.told] at ho
  · rcases List.mem_cons.1 ho with rfl | ho
    · exact ⟨rfl, fun _ => rfl⟩
    · rw [List.mem_singleton.1 ho]
      exact ⟨rfl, fun _ => rfl⟩
  · rw [List.mem_singleton.1 ho]
    exact ⟨rfl, fun _ => rfl⟩

theorem orderly_new (pool : Pool) (name : String) (addresses : List String)
    (h : pool = .ofAddresses name addresses) (config : Config) (path : String) (timeout : Nat)
    (rules : Net.DomainRules) : Orderly pool.configured (new pool config path timeout rules) := by
  subst h
  have hf := Registry.follows_new config (List.mem_singleton_self Observer.pool) name addresses
  refine ⟨⟨⟨_, rfl, hf.congr fun a ho => ?_⟩, nofun, nofun⟩, nofun⟩
  cases ho

/-- A lookup that has an answer or is given up takes its probe with it. -/
theorem Orderly.settle (h : Orderly configured s) (hi : s.out = some i) (ok : Bool) :
    Steady configured (Probes none) (s.client.watch.settle i.address i.permit ok).registry
      (s.client.watch.settle i.address i.permit ok).journal
      (s.client.watch.settle i.address i.permit ok).timers := by
  refine (h.steady.settle (h.known i hi) i.permit ok).mono fun k hk => ?_
  obtain ⟨⟨i', hi', rfl, hp⟩, hnot⟩ := hk
  obtain rfl : i = i' := Option.some.inj (hi.symm.trans hi')
  exact absurd ⟨rfl, hp⟩ hnot

theorem Orderly.start (h : Orderly configured s) (ip : String) (budget : Option Nat) (draw : Nat) :
    Orderly configured (s.act (.start ip budget draw)) := by
  simp only [act]
  rcases hout : s.out with _ | i
  · have hsteady := h.steady
    rw [hout] at hsteady
    rcases s.client.start_cases ip budget draw with ⟨f, hs, -⟩ | ⟨a, -, hveto, hs⟩ | ⟨i, hleave, hs⟩
    · rw [hs]
      exact ⟨hsteady, nofun⟩
    · rw [hs]
      refine ⟨((hsteady.allow a).mono fun k hk => ?_).note (told_still a false 0), nofun⟩
      rcases hk with hk | ⟨-, p, hp, -⟩
      · exact hk
      · rw [hveto] at hp
        cases hp
    · rw [hs]
      refine ⟨(hsteady.allow i.address).mono fun k hk => ?_, fun i' hi' => ?_⟩
      · rcases hk with ⟨i', hi', -⟩ | ⟨rfl, p, hp, hprobe⟩
        · cases hi'
        · rw [hleave, Option.some.injEq] at hp
          exact ⟨i, rfl, rfl, hp ▸ hprobe⟩
      · obtain rfl := Option.some.inj hi'
        exact Registry.knows_allow.2 (.inl rfl)
  · exact h

theorem Orderly.act (h : Orderly configured s) (a : Act) : Orderly configured (s.act a) := by
  cases a with
  | start ip budget draw => exact h.start ip budget draw
  | finish ok =>
    simp only [Session.act]
    split
    · rename_i i hi
      exact ⟨(h.settle hi ok).note (told_still _ _ _), nofun⟩
    · exact h
  | drop =>
    simp only [Session.act]
    split
    · rename_i i hi
      exact ⟨h.settle hi false, nofun⟩
    · exact h
  | advance ms => exact ⟨h.steady.elapse _, fun i hi => Steady.known_elapse _ (h.known i hi)⟩
  | refresh => exact ⟨h.steady.refresh, fun i hi => Steady.known_refresh (h.known i hi)⟩

theorem Orderly.run (h : Orderly configured s) :
    ∀ as : List Act, Orderly configured (s.run as) := by
  intro as
  induction as generalizing s with
  | nil => exact h
  | cons a as ih => exact ih (h.act a)

/-- Only a refresh is noted as one. -/
theorem unrefreshed_act (h : s.client.watch.journal.Unrefreshed) (ha : a ≠ .refresh) :
    (s.act a).client.watch.journal.Unrefreshed := by
  have hsettle (i : Inquiry) (ok : Bool) :
      (s.client.watch.settle i.address i.permit ok).journal.Unrefreshed :=
    h.note Registry.carry_refreshes
  have hallow (a : String) : (s.client.watch.allow a).1.journal.Unrefreshed :=
    h.note fun o ho => (s.client.watch.registry.allow_told a o ho).1
  have htold {j : Journal} (hj : j.Unrefreshed) (address : String) (ok : Bool) (elapsed : Nat) :
      (j.note (Geolocation.told address ok elapsed)).Unrefreshed :=
    hj.note fun o ho => (told_still address ok elapsed o ho).1
  cases a with
  | start ip budget draw =>
    simp only [act]
    rcases s.out with _ | i
    · rcases s.client.start_cases ip budget draw with ⟨f, hs, -⟩ | ⟨a, -, -, hs⟩ | ⟨i, -, hs⟩
      · rw [hs]
        exact h
      · rw [hs]
        exact htold (hallow a) a false 0
      · rw [hs]
        exact hallow i.address
    · exact h
  | finish ok =>
    simp only [act]
    split
    · exact htold (hsettle _ ok) _ ok _
    · exact h
  | drop =>
    simp only [act]
    split
    · exact hsettle _ false
    · exact h
  | advance ms => exact Steady.unrefreshed_elapse _ h
  | refresh => exact absurd rfl ha

theorem unrefreshed_run (h : s.client.watch.journal.Unrefreshed) (has : .refresh ∉ as) :
    (s.run as).client.watch.journal.Unrefreshed := by
  induction as generalizing s with
  | nil => exact h
  | cons a as ih =>
    exact ih (unrefreshed_act h fun ha => has (ha ▸ List.mem_cons_self))
      fun hmem => has (List.mem_cons_of_mem a hmem)

/-- A lookup is what happens from its start to its end. -/
theorem lookup_run (hs : s.out = none) (peers : String → Instance) (ip : String)
    (budget : Option Nat) (draw : Nat) :
    ∃ as, .refresh ∉ as ∧ s.run as = ⟨(s.client.lookup peers ip budget draw).1, none⟩ := by
  unfold Geolocation.lookup
  rcases hstart : s.client.start ip budget draw with ⟨g, f | i⟩
  · exact ⟨[.start ip budget draw], by simp, by simp [run, act, hs, hstart]⟩
  · let fetch := Fetch.run peers i.timeout Fetch.maxRedirects 0 0 i.url
    exact ⟨[.start ip budget draw, .advance fetch.elapsed, .finish fetch.result.isOk], by simp,
      by simp [run, act, hs, hstart, fetch]⟩

/-- Between lookups a veto means that the breaker is open, and the address was drawn because the
pool was refreshed since. -/
theorem Orderly.circuitOpen (h : Orderly configured s) (hs : s.out = none) {ip : String}
    {budget : Option Nat} {draw : Nat} {a : String}
    (hr : (s.client.start ip budget draw).2 = .error (.circuitOpen a)) :
    (s.client.watch.registry.breaker a).state = .opened
      ∧ s.client.watch.journal.RefreshedSince a := by
  obtain ⟨hlive, hveto⟩ : a ∈ s.client.live ∧ (s.client.watch.allow a).2 = none := by
    rcases s.client.start_cases ip budget draw with
      ⟨f, hc, hne⟩ | ⟨a', hlive, hveto, hc⟩ | ⟨i, -, hc⟩
    · rw [hc, Except.error.injEq] at hr
      exact absurd hr (hne a)
    · rw [hc, Except.error.injEq, LookupFault.circuitOpen.injEq] at hr
      exact hr ▸ ⟨hlive, hveto⟩
    · rw [hc] at hr
      cases hr
  obtain ⟨p, -, hf⟩ := h.steady.follows
  have hopen : (s.client.watch.registry.breaker a).state = .opened := by
    have hnone : (s.client.watch.registry.breaker a).allow = none := by
      rcases hall : (s.client.watch.registry.breaker a).allow with _ | ⟨p, b⟩
      · rfl
      · rw [Watch.allow, Registry.allow_of_some hall] at hveto
        cases hveto
    cases hst : (s.client.watch.registry.breaker a).state with
    | closed =>
      rw [allow_closed hst] at hnone
      cases hnone
    | opened => rfl
    | halfOpen =>
      -- no probe is out, so a half open breaker lets the call through
      rw [allow_halfOpen hst] at hnone
      split_ifs at hnone with hp
      obtain ⟨i, hi, -⟩ := h.steady.probing a hp
      rw [hs] at hi
      cases hi
  refine ⟨hopen, ((hf.live a).1 ?_).2 hopen⟩
  rwa [Geolocation.live, hf.pool] at hlive

theorem Orderly.live_eq_nil (h : Orderly configured s) :
    s.client.live = [] ↔ ∀ a ∈ configured, (s.client.watch.registry.breaker a).state = .opened
      ∧ ¬ s.client.watch.journal.RefreshedSince a := by
  obtain ⟨p, hc, hf⟩ := h.steady.follows
  have hlive : s.client.live = p.live := by rw [Geolocation.live, hf.pool]; rfl
  rw [hlive, List.eq_nil_iff_forall_not_mem]
  refine forall_congr' fun a => ?_
  rw [hf.live, hc]
  tauto

/-- A lookup that starts when no other is out, with time left, finds an open circuit only if the
breaker of its address is open and the pool was refreshed since it opened. It finds no address
exactly if every configured address has an open breaker and there was no refresh since that opened.
So without refreshes it never finds an open circuit, and it finds no address exactly if all breakers
are open. Whichever hosts the name service knows, and whoever answers the requests. -/
theorem lookup_refused {names : Net.NameService} {name : String} {addresses : List String}
    {pool : Pool} (hpool : Pool.resolve name addresses names = .ok pool) (config : Config)
    (path : String) (timeout : Nat) (rules : Net.DomainRules) (as : List Act)
    (hout : ((new pool config path timeout rules).run as).out = none) (budget : Option Nat)
    (ht : ((new pool config path timeout rules).run as).client.effectiveTimeout budget ≠ 0)
    (peers : String → Instance) (ip : String) (draw : Nat) :
    let s := (new pool config path timeout rules).run as
    let w := s.client.watch
    let result := (s.client.lookup peers ip budget draw).2.result
    (∀ a, result = .error (.circuitOpen a) →
        (w.registry.breaker a).state = .opened ∧ w.journal.RefreshedSince a)
      ∧ (result = .error .noAddress ↔ ∀ a ∈ addresses,
        (w.registry.breaker a).state = .opened ∧ ¬ w.journal.RefreshedSince a)
      ∧ (.refresh ∉ as → (∀ a, result ≠ .error (.circuitOpen a))
        ∧ (result = .error .noAddress ↔ ∀ a ∈ addresses, (w.registry.breaker a).state = .opened))
      ∧ ∃ more, .refresh ∉ more
        ∧ s.run more = ⟨(s.client.lookup peers ip budget draw).1, none⟩ := by
  intro s w result
  have hof : pool = .ofAddresses name addresses := by
    unfold Pool.resolve at hpool
    split_ifs at hpool
    split at hpool
    · cases hpool
    · exact (Except.ok.inj hpool).symm
  have h : Orderly pool.configured s :=
    (orderly_new pool name addresses hof config path timeout rules).run as
  have hopen (a : String) (hr : result = .error (.circuitOpen a)) :
      (w.registry.breaker a).state = .opened ∧ w.journal.RefreshedSince a :=
    h.circuitOpen hout ((Geolocation.lookup_error_iff (.inr ⟨a, rfl⟩)).1 hr)
  have hno : result = .error .noAddress ↔ ∀ a ∈ addresses,
      (w.registry.breaker a).state = .opened ∧ ¬ w.journal.RefreshedSince a := by
    rw [Geolocation.lookup_error_iff (.inl rfl), Geolocation.start_noAddress_iff ht, h.live_eq_nil,
      hof]
    simp only [Pool.ofAddresses, mem_dedup]
    exact Iff.rfl
  refine ⟨hopen, hno, fun has => ?_, lookup_run hout peers ip budget draw⟩
  have hfresh : w.journal.Unrefreshed := by
    refine unrefreshed_run (fun o ho => ?_) has
    rw [List.mem_singleton.1 ho]
    rfl
  refine ⟨fun a hr => hfresh.not_refreshedSince (hopen a hr).2, hno.trans ?_⟩
  exact forall₂_congr fun a _ => and_iff_left hfresh.not_refreshedSince

/-- A name service that knows one host. -/
def oneName : Net.NameService where
  answer name := if name = "geo-1.internal" then .ok [.v4 0x0A000001] else .error "unknown"
  isName name ips h := by
    split_ifs at h with hname
    subst hname
    decide

def pairPool : Pool := .ofAddresses "geo" ["geo-1.internal:8080", "127.0.0.1:2"]

/-- One instance fails before a refresh, the other after it. -/
def relapse : List Act :=
  [.start "8.8.8.8" none 0, .advance 5, .drop, .refresh, .start "8.8.8.8" (some 3) 1, .finish false]

/-- Of two open breakers, that of the address which the refresh brought back is asked again. -/
theorem lookup_refused_relapse :
    Pool.resolve "geo" ["geo-1.internal:8080", "127.0.0.1:2"] oneName = .ok pairPool
      ∧ let s := (new pairPool ⟨1, 100, 1000⟩ "/geo" 50 .plainOnly).run relapse
        let result := (s.client.lookup (fun _ _ => (0, .refused)) "8.8.8.8" none 0).2.result
        s.out = none ∧ s.client.effectiveTimeout none ≠ 0
          ∧ result = .error (.circuitOpen "geo-1.internal:8080")
          ∧ (s.client.watch.registry.breaker "geo-1.internal:8080").state = .opened
          ∧ s.client.watch.journal.RefreshedSince "geo-1.internal:8080" := by
  have hpool : Pool.resolve "geo" ["geo-1.internal:8080", "127.0.0.1:2"] oneName = .ok pairPool :=
    rfl
  refine ⟨hpool, ?_⟩
  intro s result
  have hopen := (lookup_refused hpool ⟨1, 100, 1000⟩ "/geo" 50 .plainOnly relapse rfl none
    (by decide) (fun _ _ => (0, .refused)) "8.8.8.8" 0).1
  have hresult : result = .error (.circuitOpen "geo-1.internal:8080") := rfl
  exact ⟨rfl, by decide, hresult, hopen "geo-1.internal:8080" hresult⟩

end Session

end AuctionGate
