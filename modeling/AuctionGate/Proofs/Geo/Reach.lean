import AuctionGate.Proofs.Geo.Rotation
import AuctionGate.Proofs.Net.Authority

/-!
# Instances that lookups reach

An address that resolves goes into the pool, whether or not a URL takes it. One that a URL takes
is asked under its breaker whenever it is drawn. Any other ends the lookup before the breaker, so no
breaker ever takes it out of rotation (`invalidUrl_iff`).
-/

namespace AuctionGate

open Breaker

namespace Pool

theorem ofAddresses_of_resolve {names : Net.NameService} {name : String}
    {addresses : List String} {pool : Pool} (h : resolve name addresses names = .ok pool) :
    pool = .ofAddresses name addresses
      ∧ ∀ a ∈ addresses, ∃ ss, Net.SocketAddress.resolve names a = .ok ss := by
  have hall : ∀ l : List String, firstFault? names l = none →
      ∀ a ∈ l, ∃ ss, Net.SocketAddress.resolve names a = .ok ss := by
    intro l
    induction l with
    | nil => nofun
    | cons b l ih =>
      intro hf a ha
      rw [firstFault?] at hf
      split at hf
      · cases hf
      · rename_i ss hss
        rcases List.mem_cons.1 ha with rfl | ha
        · exact ⟨ss, hss⟩
        · exact ih hf a ha
  unfold resolve at h
  split_ifs at h
  split at h
  · cases h
  · rename_i hf
    exact ⟨(Except.ok.inj h).symm, hall addresses hf⟩

end Pool

namespace Geolocation

variable {g : Geolocation} {ip : String} {budget : Option Nat} {draw : Nat}

/-- How a lookup starts: which check ends it, or to which breaker it comes. -/
inductive Start (g : Geolocation) (ip : String) (budget : Option Nat) (draw : Nat) :
    Geolocation × Except LookupFault Inquiry → Prop
  | timeout (late : g.effectiveTimeout budget = 0) : Start g ip budget draw (g, .error .timeout)
  | noAddress (early : g.effectiveTimeout budget ≠ 0) (hdraw : g.drawn? draw = none) :
      Start g ip budget draw (g, .error .noAddress)
  | invalidUrl (a : String) (early : g.effectiveTimeout budget ≠ 0)
      (hdraw : g.drawn? draw = some a) (hurl : Net.Url.lookup? g.rules a g.path ip = none) :
      Start g ip budget draw (g, .error .invalidUrl)
  | vetoed (a : String) (url : Net.Url) (early : g.effectiveTimeout budget ≠ 0)
      (hdraw : g.drawn? draw = some a) (hurl : Net.Url.lookup? g.rules a g.path ip = some url)
      (hallow : (g.watch.allow a).2 = none) :
      Start g ip budget draw
        ({ g with watch := (g.watch.allow a).1 }.note (told a false 0), .error (.circuitOpen a))
  | through (a : String) (url : Net.Url) (p : Permit) (early : g.effectiveTimeout budget ≠ 0)
      (hdraw : g.drawn? draw = some a) (hurl : Net.Url.lookup? g.rules a g.path ip = some url)
      (hallow : (g.watch.allow a).2 = some p) :
      Start g ip budget draw
        ({ g with watch := (g.watch.allow a).1 },
          .ok ⟨a, p, g.watch.now, url, g.effectiveTimeout budget⟩)

theorem start_spec (g : Geolocation) (ip : String) (budget : Option Nat) (draw : Nat) :
    Start g ip budget draw (g.start ip budget draw) := by
  unfold start
  dsimp only
  split_ifs with early
  · exact .timeout early
  · split
    · rename_i hdraw
      exact .noAddress early hdraw
    · rename_i a hdraw
      split
      · rename_i hurl
        exact .invalidUrl a early hdraw hurl
      · rename_i url hurl
        have hkeep : (g.watch.allow a).1.now = g.watch.now := rfl
        rcases hallow : g.watch.allow a with ⟨w, _ | p⟩
        · have hstart : Start g ip budget draw _ :=
            .vetoed a url early hdraw hurl (by rw [hallow])
          rwa [hallow] at hstart
        · have hstart : Start g ip budget draw _ :=
            .through a url p early hdraw hurl (by rw [hallow])
          rw [hallow] at hstart hkeep
          rwa [← show w.now = g.watch.now from hkeep] at hstart

theorem start_invalidUrl_iff : (g.start ip budget draw).2 = .error .invalidUrl
    ↔ g.effectiveTimeout budget ≠ 0
      ∧ ∃ a, g.drawn? draw = some a ∧ Net.Url.lookup? g.rules a g.path ip = none := by
  have hstart := g.start_spec ip budget draw
  generalize g.start ip budget draw = started at hstart
  cases hstart with
  | timeout late => exact iff_of_false nofun fun h => h.1 late
  | noAddress early hdraw => simp [hdraw]
  | invalidUrl a early hdraw hurl => simp [early, hdraw, hurl]
  | vetoed a url early hdraw hurl | through a url p early hdraw hurl => simp [hdraw, hurl]

theorem lookup_invalidUrl_iff (peers : String → Instance) :
    (g.lookup peers ip budget draw).2.result = .error .invalidUrl
      ↔ (g.start ip budget draw).2 = .error .invalidUrl := by
  unfold lookup
  rcases g.start ip budget draw with ⟨g', f | i⟩
  · simp
  · refine iff_of_false (fun h => ?_) nofun
    rcases fetch_fault _ _ _ _ _ _ h with h | h | h | ⟨n, h⟩ <;> cases h

end Geolocation

namespace Session

variable {s : Session} {a : String}

/-- Only an address that a URL takes ever gets a breaker. -/
def Addressable (s : Session) : Prop :=
  ∀ a, s.client.watch.registry.Knows a → Net.Url.authority? s.client.rules a.toList ≠ none

theorem Addressable.settle (h : s.Addressable) (key : String) (p : Permit) (ok : Bool) (a : String)
    (hk : (s.client.watch.settle key p ok).registry.Knows a) :
    Net.Url.authority? s.client.rules a.toList ≠ none :=
  h a (Registry.knows_carry.1 hk)

theorem Addressable.act (h : s.Addressable) (a : Act) : (s.act a).Addressable := by
  cases a with
  | start ip budget draw =>
    simp only [Session.act]
    rcases s.out with _ | i
    · have hstart := s.client.start_spec ip budget draw
      have hallow {b : String} {url : Net.Url}
          (hurl : Net.Url.lookup? s.client.rules b s.client.path ip = some url) (k : String)
          (hk : (s.client.watch.allow b).1.registry.Knows k) :
          Net.Url.authority? s.client.rules k.toList ≠ none := by
        rcases Registry.knows_allow.1 hk with rfl | hk
        · intro hnone
          rw [Net.Url.lookup_eq_none.2 hnone] at hurl
          cases hurl
        · exact h k hk
      generalize s.client.start ip budget draw = started at hstart
      cases hstart with
      | timeout | noAddress | invalidUrl => exact h
      | vetoed b url early hdraw hurl hveto => exact hallow hurl
      | through b url p early hdraw hurl hpass => exact hallow hurl
    · exact h
  | finish ok =>
    simp only [Session.act]
    split
    · exact h.settle _ _ ok
    · exact h
  | drop =>
    simp only [Session.act]
    split
    · exact h.settle _ _ false
    · exact h
  | advance ms =>
    refine Agenda.runSteps_keeps
      (P := fun _ (t : Registry × Journal) =>
        ∀ k, t.1.Knows k → Net.Url.authority? s.client.rules k.toList ≠ none)
      (fun {a a' due x t} ht _ k hk => ht k (Registry.knows_carry.1 hk)) _ _ _ h
  | refresh =>
    intro k hk
    obtain ⟨p, hp⟩ := s.client.watch.registry.poolTurn_registry Pool.refresh
    change (s.client.watch.registry.poolTurn Pool.refresh).registry.Knows k at hk
    rw [hp] at hk
    exact h k hk

theorem addressable_new (pool : Pool) (config : Config) (path : String) (timeout : Nat)
    (rules : Net.DomainRules) : (new pool config path timeout rules).Addressable :=
  fun _ hk => nomatch hk

theorem Addressable.run (h : s.Addressable) (as : List Act) : (s.run as).Addressable := by
  induction as generalizing s with
  | nil => exact h
  | cons a as ih => exact ih (h.act a)

theorem rules_act (s : Session) (a : Act) : (s.act a).client.rules = s.client.rules := by
  cases a with
  | start ip budget draw =>
    simp only [act]
    rcases s.out with _ | i
    · have hstart := s.client.start_spec ip budget draw
      generalize s.client.start ip budget draw = started at hstart
      cases hstart <;> rfl
    · rfl
  | finish ok | drop =>
    simp only [act]
    split <;> rfl
  | advance ms | refresh => rfl

theorem rules_run (s : Session) (as : List Act) : (s.run as).client.rules = s.client.rules := by
  induction as generalizing s with
  | nil => rfl
  | cons a as ih => exact (ih (s.act a)).trans (rules_act s a)

/-- Every address of a pool resolves. One that a URL takes is in a URL with its host and port, and a
lookup that draws it comes to its breaker. Any other is never refused by a breaker nor asked, stays
in rotation whatever happens, and makes every lookup that draws it end with an invalid URL. An
address with an IP address is taken exactly if it is in URL form. -/
theorem invalidUrl_iff {names : Net.NameService} {name : String} {addresses : List String}
    {pool : Pool} (hpool : Pool.resolve name addresses names = .ok pool) (config : Config)
    (path : String) (timeout : Nat) (rules : Net.DomainRules) (as : List Act)
    (peers : String → Instance) (ip : String) (budget : Option Nat) (draw : Nat) :
    let g := ((new pool config path timeout rules).run as).client
    let result := (g.lookup peers ip budget draw).2.result
    (∀ a ∈ addresses, ∃ e ss, Net.SocketAddress.read a = .ok e
        ∧ Net.SocketAddress.resolve names a = .ok ss
        ∧ (∀ i, e.host = .ip i → ss = [⟨i, e.port⟩]
          ∧ (Net.Url.Takes rules a ↔ Net.Url.Form a.toList))
        ∧ (Net.Url.Takes rules a → ∀ path ip, ∃ u, Net.Url.lookup? rules a path ip = some u
          ∧ e.host.inUrl? rules = some u.host ∧ u.port.getD 80 = e.port)
        ∧ (¬ Net.Url.Takes rules a → a ∈ g.live ∧ ¬ g.watch.registry.Knows a))
      ∧ (result = .error .invalidUrl ↔ g.effectiveTimeout budget ≠ 0
        ∧ ∃ a ∈ addresses, g.drawn? draw = some a ∧ ¬ Net.Url.Takes rules a)
      ∧ (∀ a, g.effectiveTimeout budget ≠ 0 → g.drawn? draw = some a → Net.Url.Takes rules a →
        (g.start ip budget draw).2 = .error (.circuitOpen a)
          ∨ ∃ i, (g.start ip budget draw).2 = .ok i ∧ i.address = a
            ∧ Net.Url.lookup? rules a g.path ip = some i.url)
      ∧ ((∀ a ∈ addresses, Net.Url.Takes rules a) → result ≠ .error .invalidUrl) := by
  intro g result
  obtain ⟨hof, hresolves⟩ := Pool.ofAddresses_of_resolve hpool
  obtain ⟨p, hconf, hf⟩ :=
    ((orderly_new pool name addresses hof config path timeout rules).run as).steady.follows
  have hrules : g.rules = rules := rules_run _ as
  have hlive : g.live = p.live := by
    rw [Geolocation.live, show g.watch.registry.pool = some p from hf.pool]
    rfl
  have hmem (a : String) : a ∈ p.configured ↔ a ∈ addresses := by
    rw [hconf, hof]
    exact mem_dedup
  have hknown : ((new pool config path timeout rules).run as).Addressable :=
    (addressable_new pool config path timeout rules).run as
  have htakes {a : String} (ha : a ∈ addresses) (path ip : String) :
      Net.Url.lookup? rules a path ip = none ↔ ¬ Net.Url.Takes rules a := by
    obtain ⟨ss, hss⟩ := hresolves a ha
    obtain ⟨e, he, -⟩ := Net.read_of_resolve hss
    obtain ⟨htakes, hrefuses⟩ := Net.Url.lookup_of_resolve rules hss he path ip
    refine ⟨fun hnone htaken => ?_, hrefuses⟩
    obtain ⟨u, hu, -⟩ := htakes htaken
    rw [hnone] at hu
    cases hu
  have hdrawn {a : String} (hd : g.drawn? draw = some a) : a ∈ addresses := by
    have hin := Geolocation.live_of_drawn hd
    rw [hlive, hf.live, hmem] at hin
    exact hin.1
  have hinvalid : result = .error .invalidUrl ↔ g.effectiveTimeout budget ≠ 0
      ∧ ∃ a ∈ addresses, g.drawn? draw = some a ∧ ¬ Net.Url.Takes rules a := by
    rw [Geolocation.lookup_invalidUrl_iff, Geolocation.start_invalidUrl_iff, hrules]
    refine and_congr_right fun _ => exists_congr fun a => ⟨?_, ?_⟩
    · rintro ⟨hd, hnone⟩
      exact ⟨hdrawn hd, hd, (htakes (hdrawn hd) g.path ip).1 hnone⟩
    · rintro ⟨ha, hd, hnot⟩
      exact ⟨hd, (htakes ha g.path ip).2 hnot⟩
  refine ⟨fun a ha => ?_, hinvalid, ?_, ?_⟩
  · obtain ⟨ss, hss⟩ := hresolves a ha
    obtain ⟨e, he, -, -, hhost⟩ := Net.read_of_resolve hss
    refine ⟨e, ss, he, hss, fun i hi => ?_,
      fun htaken path ip => (Net.Url.lookup_of_resolve rules hss he path ip).1 htaken,
      fun hnot => ?_⟩
    · rw [hi] at hhost
      obtain ⟨host, port⟩ := e
      obtain rfl : host = .ip i := hi
      exact ⟨hhost, Net.Url.takes_ip he⟩
    · have hstranger : ¬ g.watch.registry.Knows a := by
        intro hk
        have hnone := Net.Url.lookup_eq_none.1 ((htakes ha "" "").2 hnot)
        rw [← hrules] at hnone
        exact hknown a hk hnone
      rw [hlive, hf.live, hmem]
      exact ⟨⟨ha, fun ho => absurd (Registry.knows_of_opened ho) hstranger⟩, hstranger⟩
  · intro a early hd htaken
    have hstart := g.start_spec ip budget draw
    generalize g.start ip budget draw = started at hstart
    rw [← hrules]
    cases hstart with
    | timeout late => exact absurd late early
    | noAddress _ hdraw => rw [hdraw] at hd; cases hd
    | invalidUrl b _ hdraw hurl =>
      obtain rfl := Option.some.inj (hdraw.symm.trans hd)
      exact absurd htaken ((htakes (hdrawn hd) g.path ip).1 (hrules ▸ hurl))
    | vetoed b url _ hdraw hurl hveto =>
      obtain rfl := Option.some.inj (hdraw.symm.trans hd)
      exact .inl rfl
    | through b url p _ hdraw hurl hpass =>
      obtain rfl := Option.some.inj (hdraw.symm.trans hd)
      exact .inr ⟨_, rfl, rfl, hurl⟩
  · rintro hall hr
    obtain ⟨-, a, ha, -, hnot⟩ := hinvalid.1 hr
    exact hnot (hall a ha)

def mixedPool : Pool := .ofAddresses "geo" ["127.0.0.1:+80", "geo-1.internal:8080"]

/-- One of two addresses is out of reach; the other one fails, and leaves the rotation. -/
theorem invalidUrl_iff_mixed :
    Pool.resolve "geo" ["127.0.0.1:+80", "geo-1.internal:8080"] oneName = .ok mixedPool
      ∧ let as : List Act := [.start "8.8.8.8" none 1, .advance 5, .finish false]
        let g := ((new mixedPool ⟨1, 100, 1000⟩ "/geo" 50 .plainOnly).run as).client
        g.live = ["127.0.0.1:+80"]
          ∧ (g.lookup (fun _ _ => (0, .refused)) "8.8.8.8" none 1).2.result = .error .invalidUrl
          ∧ ¬ g.watch.registry.Knows "127.0.0.1:+80" := by
  have hpool : Pool.resolve "geo" ["127.0.0.1:+80", "geo-1.internal:8080"] oneName
      = .ok mixedPool := rfl
  refine ⟨hpool, ?_⟩
  intro as g
  obtain ⟨haddresses, hinvalid, -⟩ := invalidUrl_iff hpool ⟨1, 100, 1000⟩ "/geo" 50 .plainOnly as
    (fun _ _ => (0, .refused)) "8.8.8.8" none 1
  obtain ⟨e, ss, he, -, hip, -, hstays⟩ := haddresses "127.0.0.1:+80" (by decide)
  have hread : Net.SocketAddress.read "127.0.0.1:+80" = .ok ⟨.ip (.v4 0x7F000001), 80⟩ := rfl
  obtain rfl := Except.ok.inj (hread.symm.trans he)
  have hnot : ¬ Net.Url.Takes .plainOnly "127.0.0.1:+80" := by
    rw [(hip _ rfl).2]
    decide
  exact ⟨by decide, hinvalid.2 ⟨by decide, "127.0.0.1:+80", by decide, by decide, hnot⟩,
    (hstays hnot).2⟩

def plusPool : Pool := .ofAddresses "geo" ["127.0.0.1:+80"]

/-- A plus sign before the port resolves, but is in no URL. -/
theorem plus_before_port :
    Pool.resolve "geo" ["127.0.0.1:+80"] = .ok plusPool
      ∧ Net.Url.lookup? .plainOnly "127.0.0.1:+80" "/geo" "8.8.8.8" = none
      ∧ let g := (new plusPool ⟨1, 100, 1000⟩ "/geo" 50 .plainOnly).client
        g.drawn? 0 = some "127.0.0.1:+80"
          ∧ (g.lookup (fun _ _ => (0, .refused)) "8.8.8.8" none 0).2.result = .error .invalidUrl :=
  ⟨rfl, by decide, by decide, rfl⟩

end Session

end AuctionGate
