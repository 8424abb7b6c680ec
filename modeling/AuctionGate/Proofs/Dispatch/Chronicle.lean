import AuctionGate.Proofs.Breaker.Stamped
import AuctionGate.Proofs.Dispatch.Isolation
import AuctionGate.Proofs.Dispatch.Probing

/-!
# A chronicle of the breakers

The chronicle of a run holds the visits at the breakers in their order, and before those of a call
the turn of that call with the dispatcher that it finds (`Traffic.chronicle`).

Whoever looks at one key sees its breaker and the timers that it has started. `Sees` says that
every call finds the registry as the visits before it have left it, that no timer of the key runs
out but one that was started and not stopped, at its time, and that times never go back. Every run
is seen like that, with any key (`run_sees`).
-/

namespace AuctionGate

open Breaker
open Dispatcher (hostKey)

/-- What happens at the breakers of a dispatcher. -/
inductive Happening where
  /-- A call has its turn, with the dispatcher that it finds. -/
  | called (d : Dispatcher) (deadline : Deadline) (c : Call)
  | visited (v : Visit)

namespace Happening

def visit? : Happening → Option Visit
  | called .. => none
  | visited v => some v

/-- The time that something tells by itself. -/
def time? : Happening → Option Nat
  | called d .. => some d.now
  | visited (.asked ..) => none
  | visited (.recorded x) => some x.time
  | visited (.rang time ..) => some time

end Happening

def visitsOf (hs : List Happening) : List Visit := hs.filterMap Happening.visit?

@[simp] theorem visitsOf_append (hs hs' : List Happening) :
    visitsOf (hs ++ hs') = visitsOf hs ++ visitsOf hs' :=
  List.filterMap_append

@[simp] theorem visitsOf_visited (vs : List Visit) : visitsOf (vs.map .visited) = vs := by
  rw [visitsOf, List.filterMap_map]
  exact List.filterMap_some

/-- A registry with the timers of one key that may yet run out, each with the time at which it is
due. -/
structure Stand where
  registry : Registry
  timers : List (Nat × Timer)

namespace Stand

/-- A result may stop the timers of the key, and start one. -/
def timersAfter (key : String) (s : Stand) : Visit → List (Nat × Timer)
  | .recorded x =>
    if x.leave.key = key then
      Stamped.timersAfter x.time s.timers
        ((s.registry.breaker key).settle s.registry.config x.leave.permit x.succeeded)
    else s.timers
  | _ => s.timers

def after (key : String) (s : Stand) : Happening → Stand
  | .called .. => s
  | .visited v => ⟨s.registry.meet v, s.timersAfter key v⟩

/-- A call finds this registry, and a timer of the key is one that may run out. -/
def Fits (key : String) (s : Stand) : Happening → Prop
  | .called d .. => d.guard = some s.registry
  | .visited (.rang time k t) => k = key → (time, t) ∈ s.timers
  | .visited _ => True

/-- What happens from one time to another, as it is seen at one key. -/
inductive Sees (key : String) : Stand → Nat → List Happening → Stand → Nat → Prop
  | done {s : Stand} {n n' : Nat} : n ≤ n' → Sees key s n [] s n'
  | next {s s' : Stand} {n m n' : Nat} {h : Happening} {hs : List Happening} :
    n ≤ m → (∀ t ∈ h.time?, t = m) → s.Fits key h → Sees key (s.after key h) m hs s' n' →
    Sees key s n (h :: hs) s' n'

variable {key : String} {s s' s'' : Stand} {n n' n'' : Nat} {hs hs' : List Happening}

theorem Sees.refl (key : String) (s : Stand) (n : Nat) : Sees key s n [] s n := .done le_rfl

theorem Sees.le (h : Sees key s n hs s' n') : n ≤ n' := by
  induction h with
  | done hle => exact hle
  | next hle _ _ _ ih => exact hle.trans ih

theorem Sees.earlier (h : Sees key s n hs s' n') {m : Nat} (hm : m ≤ n) :
    Sees key s m hs s' n' := by
  cases h with
  | done hle => exact .done (hm.trans hle)
  | next hle htime hfits hrest => exact .next (hm.trans hle) htime hfits hrest

theorem Sees.append (h : Sees key s n hs s' n') (h' : Sees key s' n' hs' s'' n'') :
    Sees key s n (hs ++ hs') s'' n'' := by
  induction h with
  | done hle => exact h'.earlier hle
  | next hle htime hfits _ ih => exact .next hle htime hfits (ih h')

theorem Sees.split (h : Sees key s n (hs ++ hs') s'' n'') :
    ∃ s' n', Sees key s n hs s' n' ∧ Sees key s' n' hs' s'' n'' := by
  induction hs generalizing s n with
  | nil => exact ⟨s, n, .refl key s n, h⟩
  | cons e hs ih =>
    cases h with
    | next hle htime hfits hrest =>
      obtain ⟨s', n', hfirst, hlast⟩ := ih hrest
      exact ⟨s', n', .next hle htime hfits hfirst, hlast⟩

theorem Sees.registry (h : Sees key s n hs s' n') :
    s'.registry = s.registry.through (visitsOf hs) := by
  induction h with
  | done => rfl
  | @next _ _ _ _ _ e _ _ _ _ _ ih => cases e <;> exact ih

theorem Sees.time (h : Sees key s n hs s' n') : ∀ e ∈ hs, ∀ t ∈ e.time?, n ≤ t := by
  induction h with
  | done => exact fun _ he => nomatch he
  | next hle htime _ _ ih =>
    intro e he t ht
    rcases List.mem_cons.1 he with rfl | he
    · exact htime t ht ▸ hle
    · exact hle.trans (ih e he t ht)

end Stand

namespace Dispatcher

/-- A guard and an agenda as they are seen at one key. -/
structure Shows (key : String) (guard : Option Registry) (a : Agenda Job) (s : Stand) : Prop where
  guard : guard = some s.registry
  timers : ∀ due t, (due, .timer key t) ∈ a.entries → (due, t) ∈ s.timers

/-- A dispatcher as it is seen at one key; nothing is overdue. -/
structure Stands (key : String) (d : Dispatcher) (s : Stand) : Prop where
  shown : Shows key d.guard d.agenda s
  ahead : ∀ e ∈ d.agenda.entries, d.now ≤ e.1

variable {key : String} {s : Stand} {d : Dispatcher} {a a' : Agenda Job} {g : Option Registry}
  {limit : Nat}

section Edits

variable {r : Registry} {now : Nat} {k : String} {st : Step}

theorem mem_enters {e : Nat × Job} : e ∈ (edit (r.carry now k st)).enters
    ↔ ∃ delay t, st.started = some (delay, t) ∧ e = (now + delay.toNat, .timer k t) := by
  rw [edit, Registry.carry_started]
  rcases st.started with _ | ⟨delay, t⟩
  · simp
  · simp

theorem not_strikes {t : Timer} (h : (edit (r.carry now k st)).strikes (.timer key t) = false) :
    k = key → st.stops = false := by
  rintro rfl
  rw [← Bool.not_eq_true]
  intro hstops
  simp [edit, Registry.carry_stopped, hstops, Job.timerKey?] at h

theorem Shows.sublist (h : Shows key g a s) (ha : ∀ e ∈ a'.entries, e ∈ a.entries) :
    Shows key g a' s :=
  ⟨h.guard, fun due t he => h.timers due t (ha _ he)⟩

/-- A result stops and starts timers as it is seen at its key, and no others. -/
theorem Shows.record (h : Shows key g a s) (x : Record) :
    let turn := s.registry.settle x.time x.leave.key x.leave.permit x.succeeded
    Shows key (some turn.registry) (a.edit (edit turn)) (s.after key (.visited (.recorded x))) := by
  refine ⟨rfl, fun due t he => ?_⟩
  have hfollows := settle_follows s.registry.config x.leave.permit x.succeeded
    (s.registry.breaker x.leave.key)
  simp only [Stand.after, Stand.timersAfter]
  rcases List.mem_append.1 he with he | he
  · obtain ⟨hold, hstrikes⟩ := List.mem_filter.1 he
    have hstops := not_strikes (Bool.not_eq_true' _ ▸ hstrikes)
    split_ifs with hkey
    · rw [Stamped.timersAfter, ← hkey, hstops hkey]
      exact h.timers due t hold
    · exact h.timers due t hold
  · obtain ⟨delay, u, hstarted, heq⟩ := mem_enters.1 he
    cases heq
    rw [if_pos rfl, Stamped.timersAfter, (hfollows.started _ _ hstarted).1, hstarted]
    simp

theorem Shows.ring (h : Shows key g a s) (time : Nat) (k : String) (t : Timer) :
    Shows key (some (s.registry.fire time k t).registry) a
      (s.after key (.visited (.rang time k t))) :=
  ⟨rfl, h.timers⟩

theorem record_ahead (r : Registry) (x : Record) (ha : ∀ e ∈ a.entries, x.time ≤ e.1) :
    ∀ e ∈ (a.edit (edit (r.settle x.time x.leave.key x.leave.permit x.succeeded))).entries,
      x.time ≤ e.1 := by
  intro e he
  rcases List.mem_append.1 he with he | he
  · exact ha e (List.mem_filter.1 he).1
  · obtain ⟨delay, t, -, rfl⟩ := mem_enters.1 he
    exact Nat.le_add_right ..

end Edits

section Time

/-- What is due is done in the order in which it is due. -/
theorem Stands.elapse (h : d.Stands key s) (hle : d.now ≤ limit) :
    ∃ s', s.Sees key d.now ((d.elapseVisits limit).map .visited) s' limit
      ∧ (d.elapse limit).Stands key s' := by
  suffices hrun : ∃ s', s.Sees key d.now ((d.elapseVisits limit).map .visited) s' limit
      ∧ Shows key (d.elapse limit).guard (d.elapse limit).agenda s' by
    obtain ⟨s', hsees, hshown⟩ := hrun
    exact ⟨s', hsees, hshown, fun e he => (d.elapse_done limit e he).le⟩
  rw [elapseVisits, List.map_map]
  refine Agenda.runSteps_trail work limit
    (Q := fun a st l b st' => ∀ n s, n ≤ limit → (∀ e ∈ a.entries, n ≤ e.1) → Shows key st.1 a s →
      ∃ s', s.Sees key n (l.map (.visited ∘ fun x => x.2.visit x.1)) s' limit
        ∧ Shows key st'.1 b s')
    (fun a st n s hn _ hs => ⟨s, .done hn, hs⟩)
    (fun {a a' due j st l b st'} hpop ih n s _ ha hs => ?_) _ _ (d.guard, d.journal) d.now s hle
    h.ahead h.shown
  obtain ⟨hdue, before, after, hentries, hrest, hbefore, hafter⟩ := Agenda.pop?_eq_some_iff.1 hpop
  have hn : n ≤ due := ha (due, j) (by rw [hentries]; simp)
  have hkept : ∀ e ∈ a'.entries, e ∈ a.entries := by
    rw [hentries, hrest]
    grind
  -- the job was the earliest, so what is left is not due before it
  have hahead : ∀ e ∈ a'.entries, due ≤ e.1 := by
    rw [hrest]
    grind
  cases j with
  | timer k t =>
    have hfits : s.Fits key (.visited (.rang due k t)) := by
      rintro rfl
      exact hs.timers due t (by rw [hentries]; simp)
    simp only [work, hs.guard, edit_fire] at ih
    obtain ⟨s', hsees, hs'⟩ := ih due _ hdue hahead ((hs.sublist hkept).ring due k t)
    exact ⟨s', .next hn (fun _ ht => (Option.some.inj ht).symm) hfits hsees, hs'⟩
  | giveBack l succeeded =>
    simp only [work, hs.guard] at ih
    obtain ⟨s', hsees, hs'⟩ := ih due _ hdue (record_ahead s.registry ⟨due, l, succeeded⟩ hahead)
      ((hs.sublist hkept).record ⟨due, l, succeeded⟩)
    exact ⟨s', .next hn (fun _ ht => (Option.some.inj ht).symm) trivial hsees, hs'⟩

theorem Stands.giveBack (h : d.Stands key s) (l : Leave) (succeeded : Bool) :
    ∃ s', s.Sees key d.now [.visited (.recorded ⟨d.now, l, succeeded⟩)] s' d.now
      ∧ (d.giveBack d.now l succeeded).Stands key s' := by
  refine ⟨_, .next le_rfl (fun _ ht => (Option.some.inj ht).symm) trivial (.refl ..), ?_⟩
  simp only [Dispatcher.giveBack, h.shown.guard]
  exact ⟨h.shown.record ⟨d.now, l, succeeded⟩,
    record_ahead s.registry ⟨d.now, l, succeeded⟩ h.ahead⟩

theorem Stands.foldl_giveBack : ∀ (ls : List Leave) {d : Dispatcher} {s : Stand} {time : Nat},
    d.Stands key s → d.now = time →
    ∃ s', s.Sees key time (ls.map fun l => .visited (.recorded ⟨time, l, false⟩)) s' time
      ∧ (ls.foldl (fun d l => d.giveBack time l false) d).Stands key s'
  | [], _, s, time, h, _ => ⟨s, .refl key s time, h⟩
  | l :: ls, d, s, _, h, rfl => by
    obtain ⟨s₁, hfirst, h₁⟩ := h.giveBack l false
    obtain ⟨s₂, hrest, h₂⟩ := Stands.foldl_giveBack ls h₁ (giveBack_now ..)
    exact ⟨s₂, hfirst.append hrest, h₂⟩

theorem Stands.land {f : Flight} (h : d.Stands key s) (hle : d.now ≤ f.finish) :
    ∃ s', s.Sees key d.now ((d.landVisits f).map .visited) s' f.finish
      ∧ (d.land f).Stands key s' := by
  obtain ⟨s₁, helapse, h₁⟩ := h.elapse hle
  obtain ⟨s₂, hcancel, h₂⟩ := Stands.foldl_giveBack f.cancelled h₁ rfl
  rw [land_eq]
  refine ⟨s₂, ?_, ⟨h₂.shown.guard, h₂.shown.timers⟩, h₂.ahead⟩
  rw [landVisits, List.map_append, Flight.cancellations, List.map_map, List.map_map]
  exact helapse.append hcancel

theorem Stands.foldl_land : ∀ (fs : List Flight) {d : Dispatcher} {s : Stand}, d.Stands key s →
    fs.Pairwise (fun f g => f.finish ≤ g.finish) → (∀ f ∈ fs, d.now ≤ f.finish) →
    ∃ s', s.Sees key d.now ((d.landAllVisits fs).map .visited) s' (fs.foldl Dispatcher.land d).now
      ∧ (fs.foldl Dispatcher.land d).Stands key s'
  | [], d, s, h, _, _ => ⟨s, .refl key s d.now, h⟩
  | f :: fs, d, s, h, hsorted, hnow => by
    obtain ⟨hle, hsorted⟩ := List.pairwise_cons.1 hsorted
    obtain ⟨s₁, hfirst, h₁⟩ := h.land (hnow f List.mem_cons_self)
    have hland := d.land_now f
    obtain ⟨s₂, hrest, h₂⟩ := Stands.foldl_land fs h₁ hsorted
      fun g hg => by rw [hland]; exact hle g hg
    rw [hland] at hrest
    rw [landAllVisits, List.map_append]
    exact ⟨s₂, hfirst.append hrest, h₂⟩

end Time

section Launch

variable {deadline : Deadline} {c : Call}

/-- The turn of a call, and what it does at its breaker at once. -/
def turnChronicle (d : Dispatcher) (deadline : Deadline) (c : Call) : List Happening :=
  .called d deadline c :: (d.callVisits deadline c).map .visited

/-- Asking starts and stops no timer. -/
theorem Stands.ask (h : d.Stands key s) (q : Http.Request) (leave : Option Permit) :
    (d.ask q).1.Stands key (s.after key (.visited (.asked (hostKey q) leave))) := by
  simp only [Dispatcher.ask, h.shown.guard, hold, edit_allow, Agenda.edit_nil]
  exact ⟨⟨rfl, h.shown.timers⟩, h.ahead⟩

theorem Stands.handOver (h : d.Stands key s) (deadline : Deadline) (c : Call)
    (leave : Option Permit) : (d.handOver deadline c).Stands key
      (s.after key (.visited (.asked (hostKey c.request) leave))) :=
  let hask := h.ask c.request leave
  ⟨⟨hask.shown.guard, hask.shown.timers⟩, hask.ahead⟩

theorem Stands.issue (h : d.Stands key s) (deadline : Deadline) (i : Nat) (c : Call) :
    ∃ s', s.Sees key d.now (d.turnChronicle deadline c) s' d.now
      ∧ (d.issue deadline i c).1.Stands key s' := by
  -- whatever follows, the call finds the registry and takes no time
  suffices hturn : ∃ s', s.Sees key d.now ((d.callVisits deadline c).map .visited) s' d.now
      ∧ (d.issue deadline i c).1.Stands key s' by
    obtain ⟨s', hsees, hs'⟩ := hturn
    exact ⟨s', .next le_rfl (fun _ ht => (Option.some.inj ht).symm) h.shown.guard hsees, hs'⟩
  have hasked (leave : Option Permit) :
      s.Sees key d.now [.visited (.asked (hostKey c.request) leave)]
        (s.after key (.visited (.asked (hostKey c.request) leave))) d.now :=
    .next le_rfl (fun _ ht => absurd ht (Option.not_mem_none _)) trivial (.refl ..)
  rcases d.issue_cases deadline c with hlt | ⟨hlt, hask | ⟨l, hask, h0⟩ | ⟨leave, hask, h0⟩⟩
  · rw [issue_spent hlt, callVisits, if_pos hlt]
    exact ⟨s, .refl key s d.now, h⟩
  · rw [issue_vetoed hlt hask, callVisits, if_neg (Nat.not_le.2 hlt), hask]
    exact ⟨_, hasked none, h.ask c.request none⟩
  · have hnow : (d.handOver deadline c).now = d.now := d.ask_now c.request
    rw [issue_at_once hlt hask h0, callVisits, if_neg (Nat.not_le.2 hlt), hask]
    simp only [h0, if_true]
    obtain ⟨s', hsees, hs'⟩ :=
      (h.handOver deadline c (some l.permit)).giveBack l (d.back deadline c).2.succeeded
    rw [hnow] at hsees hs'
    exact ⟨s', (hasked (some l.permit)).append hsees, hs'⟩
  · rw [issue_out hlt hask h0, callVisits, if_neg (Nat.not_le.2 hlt), hask]
    rcases leave with _ | l
    · -- with a guard a call is never let through without a leave
      rw [(ask_guarded h.shown.guard c.request).2, Option.map_eq_some_iff] at hask
      obtain ⟨p, -, hp⟩ := hask
      cases hp
    · have hlater : (d.back deadline c).1 ≠ 0 := fun hback => Option.some_ne_none l (h0 hback)
      simp only [if_neg hlater]
      exact ⟨_, hasked (some l.permit), h.handOver deadline c (some l.permit)⟩

theorem Stands.issueAll (deadline : Deadline) : ∀ (cs : List Call) {d : Dispatcher} {s : Stand}
    (i : Nat), d.Stands key s →
    ∃ s', s.Sees key d.now ((turns deadline d i cs).flatMap fun x => x.1.turnChronicle deadline x.2)
        s' d.now
      ∧ (d.issueAll deadline i cs).1.Stands key s'
  | [], d, s, _, h => ⟨s, .refl key s d.now, h⟩
  | c :: cs, d, s, i, h => by
    obtain ⟨s₁, hfirst, h₁⟩ := h.issue deadline i c
    obtain ⟨s₂, hrest, h₂⟩ := Stands.issueAll deadline cs (i + 1) h₁
    rw [issue_now] at hrest
    exact ⟨s₂, hfirst.append hrest, h₂⟩

end Launch

end Dispatcher

/-- The calls of an errand in their turns, with what they do at their breakers at once. -/
def Sortie.chronicle (s : Sortie) : List Happening :=
  s.turns.flatMap fun x => x.1.turnChronicle s.errand.deadline x.2

namespace Dispatcher

variable {key : String} {s : Stand} {d : Dispatcher} {es : List Errand}

theorem Stands.launchAll : ∀ (es : List Errand) {d : Dispatcher} {s : Stand}, d.Stands key s →
    ∃ s', s.Sees key d.now ((d.sorties es).flatMap (·.chronicle)) s' d.now
      ∧ (d.launchAll es).1.Stands key s'
  | [], d, s, h => ⟨s, .refl key s d.now, h⟩
  | e :: es, d, s, h => by
    obtain ⟨s₁, hfirst, h₁⟩ := Stands.issueAll e.deadline (e.adapter.build e.auction).1 0 h
    obtain ⟨s₂, hrest, h₂⟩ := Stands.launchAll es h₁
    rw [issueAll_now] at hrest
    exact ⟨s₂, hfirst.append hrest, h₂⟩

theorem sorties_finish : ∀ (es : List Errand) (d : Dispatcher), ∀ s ∈ d.sorties es,
    d.now ≤ s.flight.finish ∧ ∀ a ∈ s.flight.airborne, d.now ≤ a.finish
  | e :: es, d, s, hs => by
    rcases List.mem_cons.1 hs with rfl | hs
    · exact ⟨(d.launch_finish e).1, fun a ha => (d.launch_within e a ha).1⟩
    · have hrest := sorties_finish es (d.launch e).1 s hs
      rwa [launch_now] at hrest

theorem mem_enrol {known entries returns : List (Nat × Job)} {e : Nat × Job} :
    e ∈ enrol known entries returns ↔ e ∈ entries ∨ e ∈ returns := by
  by_cases he : e ∈ known <;> simp [enrol, he, or_comm]

/-- The ends of calls are entered, which start no timer and are not overdue. -/
theorem Stands.aloft (h : d.Stands key s) (es : List Errand) :
    ∃ s', s.Sees key d.now (((d.ready es).sorties es).flatMap (·.chronicle)) s' d.now
      ∧ (d.aloft es).Stands key s' := by
  have hready : (d.ready es).Stands key s := ⟨⟨h.shown.guard, h.shown.timers⟩, h.ahead⟩
  obtain ⟨s', hsees, hs'⟩ := Stands.launchAll es hready
  have hreturn (e : Nat × Job)
      (he : e ∈ (((d.ready es).sorties es).map (·.flight)).flatMap (·.returns)) :
      d.now ≤ e.1 ∧ ∃ l succeeded, e.2 = .giveBack l succeeded := by
    obtain ⟨f, hf, he⟩ := List.mem_flatMap.1 he
    obtain ⟨q, hq, rfl⟩ := List.mem_map.1 hf
    obtain ⟨a, ha, hleave⟩ := List.mem_filterMap.1 he
    obtain ⟨l, -, rfl⟩ := Option.map_eq_some_iff.1 hleave
    exact ⟨(sorties_finish es _ q hq).2 a (List.mem_filter.1 ha).1, l, _, rfl⟩
  refine ⟨s', hsees, ⟨hs'.shown.guard, fun due t he => ?_⟩, fun e he => ?_⟩
  all_goals rcases mem_enrol.1 (aloft_sorties d es ▸ he) with he | he
  · exact hs'.shown.timers due t he
  · obtain ⟨-, l, succeeded, hjob⟩ := hreturn _ he
    cases hjob
  · exact hs'.ahead e he
  · rw [aloft_now]
    exact (hreturn e he).1

end Dispatcher

namespace Traffic

variable {key : String} {s : Stand} {t : Traffic}

/-- What happens in the course of an act. -/
def actChronicle (t : Traffic) : Act → List Happening
  | .launch es => ((t.dispatcher.ready es).sorties es).flatMap (·.chronicle)
  | .wait ms => (t.actVisits (.wait ms)).map .visited

def chronicle : Traffic → List Act → List Happening
  | _, [] => []
  | t, a :: as => t.actChronicle a ++ chronicle (t.act a) as

theorem visitsOf_flatMap {α : Type} (f : α → List Happening) : ∀ l : List α,
    visitsOf (l.flatMap f) = l.flatMap fun x => visitsOf (f x)
  | [] => rfl
  | x :: l => by rw [List.flatMap_cons, visitsOf_append, visitsOf_flatMap f l, List.flatMap_cons]

theorem visitsOf_actChronicle (t : Traffic) (a : Act) :
    visitsOf (t.actChronicle a) = t.actVisits a := by
  cases a with
  | launch es =>
    simp only [actChronicle, visitsOf_flatMap, actVisits, Sortie.chronicle, Sortie.visits]
    refine List.flatMap_congr fun q _ => List.flatMap_congr fun x _ => visitsOf_visited _
  | wait ms => exact visitsOf_visited _

/-- The visits of a chronicle are those of the run. -/
theorem visitsOf_chronicle : ∀ (as : List Act) (t : Traffic),
    visitsOf (t.chronicle as) = t.visits as
  | [], _ => rfl
  | a :: as, t => by
    rw [chronicle, visitsOf_append, visitsOf_actChronicle, visitsOf_chronicle as, visits]

/-- A dispatcher in use as it is seen at one key; no flight should have ended. -/
structure Stands (key : String) (t : Traffic) (s : Stand) : Prop where
  dispatcher : t.dispatcher.Stands key s
  ahead : ∀ f ∈ t.flights, t.dispatcher.now ≤ f.finish

theorem Stands.launch (h : t.Stands key s) (es : List Errand) :
    ∃ s', s.Sees key t.dispatcher.now (t.actChronicle (.launch es)) s'
        (t.act (.launch es)).dispatcher.now
      ∧ (t.act (.launch es)).Stands key s' := by
  obtain ⟨s', hsees, hs'⟩ := h.dispatcher.aloft es
  have hnow : (t.act (.launch es)).dispatcher.now = t.dispatcher.now :=
    t.dispatcher.aloft_now es
  refine ⟨s', hnow ▸ hsees, hs', fun f hf => ?_⟩
  rw [hnow]
  rcases List.mem_append.1 hf with hf | hf
  · exact h.ahead f hf
  · obtain ⟨q, hq, rfl⟩ := List.mem_map.1 (List.mem_filter.1 hf).1
    exact (Dispatcher.sorties_finish es _ q hq).1

theorem Stands.wait (h : t.Stands key s) (ms : Nat) :
    ∃ s', s.Sees key t.dispatcher.now (t.actChronicle (.wait ms)) s'
        (t.act (.wait ms)).dispatcher.now
      ∧ (t.act (.wait ms)).Stands key s' := by
  let limit := t.dispatcher.now + ms
  have hahead : ∀ f ∈ t.due limit, t.dispatcher.now ≤ f.finish := fun f hf =>
    h.ahead f (List.mem_filter.1 (List.mem_mergeSort.1 hf)).1
  obtain ⟨s₁, hland, h₁⟩ := h.dispatcher.foldl_land (t.due limit) (Flight.pairwise_finish _) hahead
  have hlimit : ((t.due limit).foldl Dispatcher.land t.dispatcher).now ≤ limit := by
    rcases Dispatcher.foldl_land_now (t.due limit) t.dispatcher with hnow | ⟨f, hf, hnow⟩
    · rw [hnow]
      exact Nat.le_add_right ..
    · rw [hnow]
      exact due_le hf
  obtain ⟨s₂, helapse, h₂⟩ := h₁.elapse hlimit
  refine ⟨s₂, ?_, h₂, fun f hf => ?_⟩
  · rw [actChronicle, actVisits, List.map_append]
    exact hland.append helapse
  · exact (of_decide_eq_true (List.mem_filter.1 hf).2 : limit < f.finish).le

theorem Stands.run (h : t.Stands key s) (as : List Act) :
    ∃ s', s.Sees key t.dispatcher.now (t.chronicle as) s' (t.run as).dispatcher.now
      ∧ (t.run as).Stands key s' := by
  induction as generalizing t s with
  | nil => exact ⟨s, .refl .., h⟩
  | cons a as ih =>
    have hact : ∃ s', s.Sees key t.dispatcher.now (t.actChronicle a) s' (t.act a).dispatcher.now
        ∧ (t.act a).Stands key s' := by
      cases a with
      | launch es => exact h.launch es
      | wait ms => exact h.wait ms
    obtain ⟨s₁, hfirst, h₁⟩ := hact
    obtain ⟨s₂, hrest, h₂⟩ := ih h₁
    exact ⟨s₂, hfirst.append hrest, h₂⟩

theorem stands_new (key : String) (transport : Transport) (config : Config) :
    (new transport (some config)).Stands key ⟨{ config }, []⟩ where
  dispatcher := ⟨⟨rfl, fun _ _ he => nomatch he⟩, fun _ he => nomatch he⟩
  ahead _ hf := nomatch hf

/-- Over any transport and through any launches and waits, the breakers go through the visits of
the chronicle, and at any key it is seen that the calls and the timers fit them. -/
theorem run_sees (key : String) (transport : Transport) (config : Config) (as : List Act) :
    let t₀ := new transport (some config)
    ∃ s out, Stand.Sees key ⟨{ config }, []⟩ 0 (t₀.chronicle as) s (t₀.run as).dispatcher.now
      ∧ Registry.Serves { config } [] (visitsOf (t₀.chronicle as)) s.registry out := by
  intro t₀
  obtain ⟨s, hsees, -⟩ := (stands_new key transport config).run as
  obtain ⟨r, -, haccounts⟩ := ((balanced_new transport config).run as).registry
  have hserves := haccounts.serves
  rw [List.nil_append, ← visitsOf_chronicle] at hserves
  have hr : r = s.registry := hserves.through_eq.trans hsees.registry.symm
  exact ⟨s, _, hsees, hr ▸ hserves⟩

end Traffic

end AuctionGate
